/-
Trends: finished jobs by the hour, the day or the week, for the
dashboard.

A request is resolved to a window of time. Its hours are listed, the jobs
that finished in them are counted by a query each for the completed and
for the failed ones, and the counts are filled in, one bucket an hour.
The buckets of several queues are added up, and hours are rolled up into
days or weeks.

The queries are those of PostgreSQL; those of MySQL differ in how an hour
is written. Instants are not bounded: those of a request have years of
four digits. Mean run times, throughput and error rates are
floating-point numbers and not modelled.
-/
import Hammerwork.Job
import Hammerwork.Lib.SortedMap
import Mathlib.Algebra.Order.Ring.Int
import Mathlib.Data.List.Dedup

namespace Hammerwork

namespace Trends

-- == requests

def oneSecond : TimeDelta := 1000000000

def oneHour : TimeDelta := 3600 * oneSecond

def oneDay : TimeDelta := 24 * oneHour

/-- The most hourly buckets a single request may span. -/
def maxBuckets : Nat := 24 * 31

structure TimeRange where
  start : DateTime
  stop : DateTime

inductive Granularity where
  | hour
  | day
  | week
  deriving DecidableEq

/-- Statistics query parameters. -/
structure StatsQuery where
  timeRange : Option TimeRange
  /-- Only these queues are reported; all when absent or empty. -/
  queues : Option (List String)
  hours : Option Nat

/-- Truncates to the start of the UTC hour. -/
def hourFloor (t : DateTime) : DateTime :=
  let timestamp := t / oneSecond
  (timestamp - timestamp % 3600) * oneSecond

/-- The window of a request: the hours or the range asked for, if they are
not too many, or else the last 24 hours. -/
def resolveRange (query : StatsQuery) (now : DateTime) : Except String (DateTime × DateTime) :=
  match query.hours with
  | some hours =>
      if hours = 0 ∨ maxBuckets < hours then
        .error s!"hours must be between 1 and {maxBuckets}"
      else
        .ok (hourFloor now - (hours - 1) * oneHour, now)
  | none =>
      match query.timeRange with
      | some range =>
          if range.stop ≤ range.start then
            .error "time_range.start must be before time_range.end"
          else if maxBuckets * oneHour < range.stop - range.start then
            .error s!"time_range may span at most {maxBuckets} hours"
          else
            .ok (range.start, range.stop)
      | none => .ok (hourFloor now - 23 * oneHour, now)

-- == hours

/-- The hours from `cursor` on, as far as there is room for them. -/
def hoursFrom (stop : DateTime) : Nat → DateTime → List DateTime
  | 0, _ => []
  | room + 1, cursor =>
      if cursor < stop then cursor :: hoursFrom stop room (cursor + oneHour) else []

/-- The hours from that of `start` to before `stop`, oldest first, but at
most `maxBuckets`. -/
def hourRange (start stop : DateTime) : List DateTime :=
  hoursFrom stop maxBuckets (hourFloor start)

/-- Completed and failed jobs in one UTC hour. -/
structure HourBucket where
  hour : DateTime
  completed : Nat
  failed : Nat
  deriving DecidableEq

/-- Sparse counts as a series over `hours`. -/
def fillBuckets (hours : List DateTime) (completed failed : List (DateTime × Nat)) :
    List HourBucket :=
  hours.map fun hour =>
    { hour
      completed := (SortedMap.lookup hour completed).getD 0
      failed := (SortedMap.lookup hour failed).getD 0 }

-- == queries

/-- When a job completed. -/
def completedTime (job : Job) : Option DateTime :=
  if job.status = .completed then job.completedAt else none

/-- When a job that is failed, dead or timed out was so. -/
def failedTime (job : Job) : Option DateTime :=
  if job.status = .failed ∨ job.status = .dead ∨ job.status = .timedOut then
    job.failedAt.or job.timedOutAt
  else
    none

/-- The rows of a query for the times from `first` to before `upper`,
counted by hour. -/
def countByHour (first upper : DateTime) (times : List DateTime) : List (DateTime × Nat) :=
  let buckets := (times.filter fun t => first ≤ t ∧ t < upper).map hourFloor
  buckets.dedup.map fun bucket => (bucket, buckets.count bucket)

/-- The rows as a map. -/
def collect (rows : List (DateTime × Nat)) : List (DateTime × Nat) :=
  rows.foldl (fun counts row => SortedMap.insert row.1 row.2 counts) []

/-- Hourly activity from `start` to before `stop`, of one queue or of
all. -/
def hourlyActivity (history : List Job) (queue : Option String) (start stop : DateTime) :
    List HourBucket :=
  let hours := hourRange start stop
  match hours.head?, hours.getLast? with
  | some first, some last =>
      let upper := last + oneHour
      let selected := history.filter fun job => queue.all (job.queueName = ·)
      let completed := collect (countByHour first upper (selected.filterMap completedTime))
      let failed := collect (countByHour first upper (selected.filterMap failedTime))
      fillBuckets hours completed failed
  | _, _ => []

-- == trends

structure HourlyTrend where
  hour : DateTime
  completed : Nat
  failed : Nat
  deriving DecidableEq

def trendFromBucket (bucket : HourBucket) : HourlyTrend :=
  { hour := bucket.hour, completed := bucket.completed, failed := bucket.failed }

/-- Adds the buckets of a further queue, hour by hour. -/
def addBuckets : List HourBucket → List HourBucket → List HourBucket
  | total :: merged, bucket :: buckets =>
      { total with
        completed := total.completed + bucket.completed
        failed := total.failed + bucket.failed } :: addBuckets merged buckets
  | merged, _ => merged

/-- The start of the bucket that `hour` is in. -/
def bucketStart (granularity : Granularity) (hour : DateTime) : DateTime :=
  let day := hour / oneDay
  match granularity with
  | .hour => hour
  | .day => day * oneDay
  | .week =>
      -- the first day of the epoch was a Thursday
      let daysFromMonday := (day + 3) % 7
      (day - daysFromMonday) * oneDay

/-- Adds an hour to the last bucket, or to a new one if it is not in
that. -/
def addTrend (granularity : Granularity) (buckets : List HourlyTrend) (trend : HourlyTrend) :
    List HourlyTrend :=
  let start := bucketStart granularity trend.hour
  let buckets := if buckets.getLast?.all (·.hour ≠ start) then
      buckets ++ [{ hour := start, completed := 0, failed := 0 }]
    else
      buckets
  match buckets.getLast? with
  | some bucket => buckets.dropLast ++ [{ bucket with
      completed := bucket.completed + trend.completed
      failed := bucket.failed + trend.failed }]
  | none => buckets

/-- Merges hourly trends, oldest first, into buckets. -/
def rollUp (trends : List HourlyTrend) (granularity : Granularity) : List HourlyTrend :=
  if granularity = .hour then trends else trends.foldl (addTrend granularity) []

/-- Whether `queueName` is selected by the request's `queues` filter. -/
def queueSelected (queues : Option (List String)) (queueName : String) : Bool :=
  match queues with
  | some (name :: names) => (name :: names).any (· = queueName)
  | _ => true

/-- The activity of a request, summed hour by hour over the queues it
names. -/
def mergedActivity (history : List Job) (start stop : DateTime)
    (queues : Option (List String)) : List HourBucket :=
  match queues with
  | some (name :: names) =>
      (name :: names).foldl (fun (merged : List HourBucket) name =>
        let queueBuckets := hourlyActivity history (some name) start stop
        if merged.isEmpty then queueBuckets else addBuckets merged queueBuckets) []
  | _ => hourlyActivity history none start stop

/-- The trends of a window. -/
def computeTrends (history : List Job) (start stop : DateTime) (queues : Option (List String))
    (granularity : Granularity) : List HourlyTrend :=
  rollUp ((mergedActivity history start stop queues).map trendFromBucket) granularity

end Trends

end Hammerwork
