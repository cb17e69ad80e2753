/-
Trends count every finished job once.

The buckets of a queue are the hours of the window, each with the jobs
that finished in it (`hourlyActivity_eq`); those of several queues are
added up (`mergedActivity_eq`), and hours rolled up into days or weeks are
neighbours merged (`computeTrends_eq`). As every time is in one hour,
counting hour by hour is counting the jobs whose hour is listed
(`tally_counted`).

Two things are counted wrongly. A queue that is named again counts again,
and a window that does not begin on the hour may touch one hour more than
there is room for. The sums are right where the two are in balance
(`trendsCount_iff`), as where neither is.
-/
import Hammerwork.Trends
import Hammerwork.Lib.Grouping
import Hammerwork.Lib.RollUp

namespace Hammerwork

namespace Trends

variable {t hour start stop first upper : DateTime} {history : List Job} {queue : Option String}
  {granularity : Granularity} {time : Job → Option DateTime}

-- == hours

/-- The hour of a time is the whole hour that it is in. -/
theorem hourFloor_eq_iff : hourFloor t = hour ↔
    hour % oneHour = 0 ∧ hour ≤ t ∧ t < hour + oneHour := by
  dsimp only [hourFloor, oneHour, oneSecond, TimeDelta, DateTime] at *
  omega

theorem hourFloor_spec (t : DateTime) :
    hourFloor t % oneHour = 0 ∧ hourFloor t ≤ t ∧ t < hourFloor t + oneHour :=
  hourFloor_eq_iff.1 rfl

theorem add_hours (cursor : DateTime) (i : Nat) :
    cursor + ((i + 1 : Nat) : Int) * oneHour = cursor + oneHour + i * oneHour := by
  dsimp only [oneHour, oneSecond, TimeDelta, DateTime]
  omega

/-- The hours listed. -/
theorem mem_hoursFrom {room : Nat} {cursor : DateTime} :
    hour ∈ hoursFrom stop room cursor ↔
      ∃ i < room, hour = cursor + (i : Int) * oneHour ∧ hour < stop := by
  induction room generalizing cursor with
  | zero =>
      constructor
      · intro h
        cases h
      · rintro ⟨i, hi, -⟩
        exact absurd hi (Nat.not_lt_zero i)
  | succ room ih =>
      rw [hoursFrom]
      split
      case isTrue hlt =>
        rw [List.mem_cons, ih]
        constructor
        · rintro (rfl | ⟨i, hi, rfl, hstop⟩)
          · exact ⟨0, Nat.succ_pos room, by simp, hlt⟩
          · exact ⟨i + 1, Nat.succ_lt_succ hi, (add_hours cursor i).symm, hstop⟩
        · rintro ⟨i, hi, rfl, hstop⟩
          cases i with
          | zero => exact .inl (by simp)
          | succ i =>
              exact .inr ⟨i, Nat.lt_of_succ_lt_succ hi, add_hours cursor i, hstop⟩
      case isFalse hge =>
        constructor
        · intro h
          cases h
        · rintro ⟨i, -, rfl, hstop⟩
          dsimp only [oneHour, oneSecond, TimeDelta, DateTime] at *
          omega

theorem pairwise_hoursFrom (room : Nat) (cursor : DateTime) :
    (hoursFrom stop room cursor).Pairwise (· < ·) := by
  induction room generalizing cursor with
  | zero => exact List.Pairwise.nil
  | succ room ih =>
      rw [hoursFrom]
      split
      case isTrue hlt =>
        refine List.pairwise_cons.2 ⟨fun hour hhour => ?_, ih _⟩
        obtain ⟨i, -, rfl, -⟩ := mem_hoursFrom.1 hhour
        dsimp only [oneHour, oneSecond, TimeDelta, DateTime]
        omega
      case isFalse => exact List.Pairwise.nil

/-- The first hour that there is no room for. -/
def nextHour (start : DateTime) : DateTime := hourFloor start + maxBuckets * oneHour

/-- An hour of the window: from that of `start` on, and beginning before
`stop`. -/
structure WindowHour (start stop hour : DateTime) : Prop where
  whole : hour % oneHour = 0
  first : hourFloor start ≤ hour
  last : hour < stop

theorem mem_hourRange :
    hour ∈ hourRange start stop ↔ WindowHour start stop hour ∧ hour < nextHour start := by
  obtain ⟨hwhole, -, -⟩ := hourFloor_spec start
  unfold hourRange nextHour
  rw [mem_hoursFrom]
  constructor
  · rintro ⟨i, hi, rfl, hstop⟩
    refine ⟨⟨?_, ?_, hstop⟩, ?_⟩
    all_goals
      dsimp only [maxBuckets, oneHour, oneSecond, TimeDelta, DateTime] at *
      omega
  · rintro ⟨⟨hhour, hfirst, hstop⟩, hnext⟩
    refine ⟨((hour - hourFloor start) / oneHour).toNat, ?_, ?_, hstop⟩
    all_goals
      dsimp only [maxBuckets, oneHour, oneSecond, TimeDelta, DateTime] at *
      omega

/-- The time is in the window: from the start of the hour of `start` to the
end of the hour of the last instant before `stop`. -/
def InWindow (start stop t : DateTime) : Prop :=
  hourFloor start ≤ t ∧ t < hourFloor (stop - 1) + oneHour

instance (start stop t : DateTime) : Decidable (InWindow start stop t) :=
  inferInstanceAs (Decidable (_ ∧ _))

/-- A time is in the window if its hour is. -/
theorem inWindow_iff : InWindow start stop t ↔ WindowHour start stop (hourFloor t) := by
  obtain ⟨hwhole, hle, hlt⟩ := hourFloor_spec t
  obtain ⟨hwhole', -, -⟩ := hourFloor_spec start
  obtain ⟨hwhole'', hle'', hlt''⟩ := hourFloor_spec (stop - 1)
  unfold InWindow
  constructor
  · rintro ⟨hfirst, hlast⟩
    refine ⟨hwhole, ?_, ?_⟩
    all_goals
      dsimp only [oneHour, oneSecond, TimeDelta, DateTime] at *
      omega
  · rintro ⟨-, hfirst, hlast⟩
    refine ⟨?_, ?_⟩
    all_goals
      dsimp only [oneHour, oneSecond, TimeDelta, DateTime] at *
      omega

-- == counting

/-- The hours that the jobs of a queue, or of all queues, finished in. -/
def finishedHours (history : List Job) (queue : Option String)
    (time : Job → Option DateTime) : List DateTime :=
  (history.filter fun job => queue.all (job.queueName = ·)).filterMap fun job =>
    (time job).map hourFloor

/-- Rows with a count for each key are found in the map. -/
theorem lookup_collect (f : DateTime → Nat) (keys : List DateTime) (hour : DateTime)
    (counts : List (DateTime × Nat)) :
    SortedMap.lookup hour ((keys.map fun bucket => (bucket, f bucket)).foldl
        (fun counts row => SortedMap.insert row.1 row.2 counts) counts)
      = if hour ∈ keys then some (f hour) else SortedMap.lookup hour counts := by
  induction keys generalizing counts with
  | nil => rfl
  | cons key keys ih =>
      rw [List.map_cons, List.foldl_cons, ih, SortedMap.lookup_insert]
      by_cases hkeys : hour ∈ keys
      · simp [hkeys]
      · by_cases heq : hour = key
        · simp [heq]
        · simp [hkeys, heq]

/-- What a query counts for an hour that it reaches. -/
theorem lookup_countByHour {times : List DateTime} (hfirst : first ≤ hour)
    (hupper : hour + oneHour ≤ upper) :
    (SortedMap.lookup hour (collect (countByHour first upper times))).getD 0
      = (times.map hourFloor).count hour := by
  have hbuckets : ((times.filter fun t => first ≤ t ∧ t < upper).map hourFloor).count hour
      = (times.map hourFloor).count hour := by
    rw [List.count_eq_countP, List.count_eq_countP, List.countP_map, List.countP_map,
      List.countP_filter]
    refine List.countP_congr fun t _ => ?_
    simp only [Function.comp_apply, beq_iff_eq, Bool.and_eq_true, decide_eq_true_eq]
    refine ⟨fun h => h.1, fun h => ⟨h, ?_⟩⟩
    obtain ⟨-, hle, hlt⟩ := hourFloor_eq_iff.1 h
    dsimp only [oneHour, oneSecond, TimeDelta, DateTime] at *
    omega
  unfold collect countByHour
  rw [lookup_collect, ← hbuckets]
  split
  case isTrue => rfl
  case isFalse hnot => exact (List.count_eq_zero.2 fun hmem => hnot (List.mem_dedup.2 hmem)).symm

/-- The buckets of a queue. -/
theorem hourlyActivity_eq : hourlyActivity history queue start stop
    = (hourRange start stop).map fun hour =>
        { hour
          completed := (finishedHours history queue completedTime).count hour
          failed := (finishedHours history queue failedTime).count hour } := by
  have hsorted : (hourRange start stop).Pairwise (· < ·) := pairwise_hoursFrom _ _
  unfold hourlyActivity
  generalize hourRange start stop = hours at hsorted
  dsimp only
  split
  case h_1 first last hfirst hlast =>
    obtain ⟨rest, hrest⟩ := List.head?_eq_some_iff.1 hfirst
    obtain ⟨front, hfront⟩ := List.getLast?_eq_some_iff.1 hlast
    refine List.map_congr_left fun hour hhour => ?_
    have hle : first ≤ hour := by
      rw [hrest] at hhour hsorted
      rcases List.mem_cons.1 hhour with rfl | hhour
      · exact le_refl _
      · exact le_of_lt ((List.pairwise_cons.1 hsorted).1 hour hhour)
    have hupper : hour ≤ last := by
      rw [hfront] at hhour hsorted
      rcases List.mem_append.1 hhour with hhour | hhour
      · exact le_of_lt ((List.pairwise_append.1 hsorted).2.2 hour hhour last
          (List.mem_singleton_self last))
      · exact le_of_eq (List.mem_singleton.1 hhour)
    rw [lookup_countByHour hle (Int.add_le_add_right hupper oneHour),
      lookup_countByHour hle (Int.add_le_add_right hupper oneHour)]
    simp only [finishedHours, List.map_filterMap]
  case h_2 hempty =>
    cases hours with
    | nil => rfl
    | cons first rest =>
        exact absurd (List.getLast?_eq_some_getLast (List.cons_ne_nil first rest))
          (hempty first _ rfl)

-- == several queues

/-- Adding up the buckets of the same hours. -/
theorem addBuckets_map (c d f g : DateTime → Nat) (hours : List DateTime) :
    addBuckets (hours.map fun hour => { hour, completed := c hour, failed := f hour })
        (hours.map fun hour => { hour, completed := d hour, failed := g hour })
      = hours.map fun hour =>
          { hour, completed := c hour + d hour, failed := f hour + g hour } := by
  induction hours with
  | nil => rfl
  | cons hour hours ih => rw [List.map_cons, List.map_cons, addBuckets, ih, List.map_cons]

/-- Merging the queues named, after others. -/
theorem foldl_activity (c f : DateTime → Nat) (hours : List DateTime) (names : List String)
    (C F : String → DateTime → Nat) (activity : String → List HourBucket)
    (hactivity : ∀ name, activity name = hours.map fun hour =>
      { hour, completed := C name hour, failed := F name hour }) :
    names.foldl (fun (merged : List HourBucket) name =>
        if merged.isEmpty then activity name else addBuckets merged (activity name))
        (hours.map fun hour => { hour, completed := c hour, failed := f hour })
      = hours.map fun hour =>
          { hour
            completed := c hour + tally (C · hour) names
            failed := f hour + tally (F · hour) names } := by
  induction names generalizing c f with
  | nil => rfl
  | cons name names ih =>
      have hstep : (if (hours.map fun hour => (HourBucket.mk hour (c hour) (f hour))).isEmpty then
            activity name
          else addBuckets (hours.map fun hour => HourBucket.mk hour (c hour) (f hour))
            (activity name))
          = hours.map fun hour => ⟨hour, c hour + C name hour, f hour + F name hour⟩ := by
        rw [hactivity, addBuckets_map]
        split
        case isTrue hempty =>
          rw [List.isEmpty_iff, List.map_eq_nil_iff] at hempty
          rw [hempty]
          rfl
        case isFalse => rfl
      rw [List.foldl_cons, hstep, ih]
      refine List.map_congr_left fun hour _ => ?_
      rw [Tally.tally_cons, Tally.tally_cons, Nat.add_assoc, Nat.add_assoc]

/-- How often the request asks for the queue: once if it names none. -/
def mentions (queues : Option (List String)) (queueName : String) : Nat :=
  match queues with
  | some (name :: names) => (name :: names).count queueName
  | _ => 1

/-- What the request counts for an hour: the jobs of each mention. -/
def counted (history : List Job) (queues : Option (List String))
    (time : Job → Option DateTime) (hour : DateTime) : Nat :=
  match queues with
  | some (name :: names) =>
      tally (fun name => (finishedHours history (some name) time).count hour) (name :: names)
  | _ => (finishedHours history none time).count hour

/-- The trend of an hour, at the start of its bucket. -/
def hourTrend (history : List Job) (queues : Option (List String)) (granularity : Granularity)
    (hour : DateTime) : HourlyTrend :=
  { hour := bucketStart granularity hour
    completed := counted history queues completedTime hour
    failed := counted history queues failedTime hour }

def absorbTrend (bucket trend : HourlyTrend) : HourlyTrend :=
  { bucket with
    completed := bucket.completed + trend.completed
    failed := bucket.failed + trend.failed }

/-- Adding an hour is a step of the merge of neighbours. -/
theorem addTrend_eq (buckets : List HourlyTrend) (trend : HourlyTrend) :
    addTrend granularity buckets trend = RollUp.step HourlyTrend.hour absorbTrend buckets
      { trend with hour := bucketStart granularity trend.hour } := by
  rcases List.eq_nil_or_concat' buckets with rfl | ⟨front, last, rfl⟩
  · rw [RollUp.step_nil]
    simp [addTrend]
  · rw [RollUp.step_concat]
    by_cases heq : last.hour = bucketStart granularity trend.hour
    · simp [addTrend, heq, absorbTrend]
    · simp [addTrend, heq]

/-- Later hours are in later buckets, or in the same. -/
theorem bucketStart_mono {hour hour' : DateTime} (h : hour ≤ hour') :
    bucketStart granularity hour ≤ bucketStart granularity hour' := by
  have hday : ∀ day day' : Int, day ≤ day' →
      day - (day + 3) % 7 ≤ day' - (day' + 3) % 7 := by
    intro day day' hle
    omega
  have hdays : hour / oneDay ≤ hour' / oneDay := Int.ediv_le_ediv (by decide) h
  cases granularity with
  | hour => exact h
  | day => exact Int.mul_le_mul_of_nonneg_right hdays (by decide)
  | week => exact Int.mul_le_mul_of_nonneg_right (hday _ _ hdays) (by decide)

/-- Rolling hours up merges those of a bucket. -/
theorem rollUp_eq {trends : List HourlyTrend} (h : trends.Pairwise fun a b => a.hour < b.hour) :
    rollUp trends granularity = RollUp.rollUp HourlyTrend.hour absorbTrend
      (trends.map fun trend => { trend with hour := bucketStart granularity trend.hour }) := by
  unfold rollUp
  split
  case isTrue heq =>
    subst heq
    have hsame : trends.map (fun trend =>
        ({ trend with hour := bucketStart .hour trend.hour } : HourlyTrend)) = trends :=
      List.map_id trends
    rw [hsame]
    exact (RollUp.rollUp_of_pairwise (h.imp fun hlt => ne_of_lt hlt)).symm
  case isFalse =>
    unfold RollUp.rollUp
    rw [List.foldl_map]
    congr 1
    funext buckets trend
    exact addTrend_eq buckets trend

/-- The buckets of a request. -/
theorem mergedActivity_eq (history : List Job) (start stop : DateTime)
    (queues : Option (List String)) :
    mergedActivity history start stop queues
      = (hourRange start stop).map fun hour =>
          { hour
            completed := counted history queues completedTime hour
            failed := counted history queues failedTime hour } := by
  unfold mergedActivity
  split
  case h_1 name names =>
    have hfirst : ∀ activity : List HourBucket,
        (if ([] : List HourBucket).isEmpty then activity else addBuckets [] activity)
          = activity :=
      fun _ => rfl
    rw [List.foldl_cons]
    dsimp only
    rw [hfirst, hourlyActivity_eq, foldl_activity _ _ _ _ _ _ _ fun name => hourlyActivity_eq]
    refine List.map_congr_left fun hour _ => ?_
    rw [counted, counted, Tally.tally_cons, Tally.tally_cons]
  case h_2 hnone =>
    rw [hourlyActivity_eq]
    refine List.map_congr_left fun hour _ => ?_
    unfold counted
    split
    case h_1 name names => exact absurd rfl (hnone name names)
    case h_2 => rfl

/-- The trends of a window are its hours, merged. -/
theorem computeTrends_eq (history : List Job) (start stop : DateTime)
    (queues : Option (List String)) (granularity : Granularity) :
    computeTrends history start stop queues granularity
      = RollUp.rollUp HourlyTrend.hour absorbTrend
          ((hourRange start stop).map (hourTrend history queues granularity)) := by
  have hsorted : (hourRange start stop).Pairwise (· < ·) := pairwise_hoursFrom _ _
  unfold computeTrends
  rw [mergedActivity_eq, rollUp_eq]
  · rw [List.map_map, List.map_map]
    rfl
  · rw [List.map_map]
    exact List.pairwise_map.2 hsorted

-- == sums

/-- Over hours, each job of a queue is counted in its own. -/
theorem tally_finishedHours {hours : List DateTime} (hnd : hours.Nodup) :
    tally ((finishedHours history queue time).count ·) hours
      = (history.filter fun job => (time job).any (hourFloor · ∈ hours)).countP
          fun job => queue.all (job.queueName = ·) := by
  have hcount : ∀ hour, hours.count hour = if decide (hour ∈ hours) then 1 else 0 := by
    intro hour
    rw [hnd.count]
    simp
  rw [Tally.tally_count_comm, Tally.tally_congr fun hour _ => hcount hour, Tally.tally_countP,
    finishedHours, List.countP_filterMap, List.countP_filter, List.countP_filter]
  refine List.countP_congr fun job _ => ?_
  cases htime : time job with
  | none => simp
  | some t => simp [and_comm]

/-- Over hours, each job is counted once for each mention of its queue. -/
theorem tally_counted {hours : List DateTime} (queues : Option (List String))
    (hnd : hours.Nodup) :
    tally (counted history queues time) hours
      = tally (fun job => mentions queues job.queueName)
          (history.filter fun job => (time job).any (hourFloor · ∈ hours)) := by
  unfold counted mentions
  split
  case h_1 name names =>
    generalize hasked : name :: names = asked
    generalize hjobs : (history.filter fun job => (time job).any (hourFloor · ∈ hours)) = jobs
    calc tally (fun hour => tally (fun name =>
          (finishedHours history (some name) time).count hour) asked) hours
      _ = tally (fun name => tally ((finishedHours history (some name) time).count ·) hours)
          asked := Tally.tally_comm _ _ _
      _ = tally (fun name => (jobs.map Job.queueName).count name) asked := by
          refine Tally.tally_congr fun name _ => ?_
          rw [tally_finishedHours hnd, hjobs, List.count_eq_countP, List.countP_map]
          rfl
      _ = tally (asked.count ·) (jobs.map Job.queueName) := Tally.tally_count_comm _ _
      _ = tally (fun job => asked.count job.queueName) jobs := by
          rw [tally, tally, List.map_map]
          rfl
  case h_2 hnone =>
    rw [tally_finishedHours hnd]
    refine (Tally.tally_countP (fun job => Option.all (job.queueName = ·) none) _).symm.trans ?_
    refine Tally.tally_congr fun job _ => ?_
    rw [Option.all_none, if_pos rfl]

-- == the window

/-- The finished jobs of the selected queues in the window. -/
def finishedCount (history : List Job) (start stop : DateTime) (queues : Option (List String))
    (time : Job → Option DateTime) : Nat :=
  history.countP fun job =>
    queueSelected queues job.queueName && (time job).any fun t => InWindow start stop t

/-- The jobs of the hours there is room for, once for each further mention
of their queue. -/
def countedAgain (history : List Job) (start stop : DateTime) (queues : Option (List String))
    (time : Job → Option DateTime) : Nat :=
  tally (fun job => mentions queues job.queueName - 1)
    (history.filter fun job =>
      (time job).any fun t => InWindow start stop t ∧ t < nextHour start)

/-- The jobs of the selected queues that finished in the window, but when
there is no room any more. -/
def leftOut (history : List Job) (start stop : DateTime) (queues : Option (List String))
    (time : Job → Option DateTime) : Nat :=
  history.countP fun job =>
    queueSelected queues job.queueName &&
      (time job).any fun t => InWindow start stop t ∧ nextHour start ≤ t

/-- Trends are right: every finished job of the window counts once, and
every hour of it has one bucket, in order. -/
structure TrendsCount (history : List Job) (start stop : DateTime)
    (queues : Option (List String)) (granularity : Granularity)
    (trends : List HourlyTrend) : Prop where
  completed : tally HourlyTrend.completed trends
    = finishedCount history start stop queues completedTime
  failed : tally HourlyTrend.failed trends
    = finishedCount history start stop queues failedTime
  increasing : trends.Pairwise fun a b => a.hour < b.hour
  covered : ∀ hour, WindowHour start stop hour →
    ∃! trend, trend ∈ trends ∧ trend.hour = bucketStart granularity hour

/-- What further mentions add is what there is no room for, and the hour
there is no room for shares the bucket of the one before. -/
structure Balanced (history : List Job) (start stop : DateTime)
    (queues : Option (List String)) (granularity : Granularity) : Prop where
  completed : countedAgain history start stop queues completedTime
    = leftOut history start stop queues completedTime
  failed : countedAgain history start stop queues failedTime
    = leftOut history start stop queues failedTime
  last : nextHour start < stop → bucketStart granularity (nextHour start)
    = bucketStart granularity (nextHour start - oneHour)

theorem hourFloor_mem : hourFloor t ∈ hourRange start stop ↔
    InWindow start stop t ∧ t < nextHour start := by
  rw [mem_hourRange, ← inWindow_iff]
  obtain ⟨hwhole, hle, hlt⟩ := hourFloor_spec t
  obtain ⟨hwhole', -, -⟩ := hourFloor_spec start
  refine and_congr_right fun _ => ?_
  unfold nextHour
  dsimp only [oneHour, oneSecond, TimeDelta, DateTime, maxBuckets] at *
  omega

/-- A queue is selected if the request asks for it. -/
theorem queueSelected_iff {queues : Option (List String)} {queueName : String} :
    queueSelected queues queueName = true ↔ 0 < mentions queues queueName := by
  unfold queueSelected mentions
  split
  case h_1 name names =>
    rw [List.count_pos_iff, List.any_eq_true]
    simp [eq_comm]
  case h_2 => simp

/-- What is counted, and what should be. -/
theorem tally_counted_add (history : List Job) (start stop : DateTime)
    (queues : Option (List String)) (time : Job → Option DateTime) :
    tally (counted history queues time) (hourRange start stop)
        + leftOut history start stop queues time
      = finishedCount history start stop queues time
        + countedAgain history start stop queues time := by
  have hnd : (hourRange start stop).Nodup :=
    (pairwise_hoursFrom maxBuckets (hourFloor start)).imp fun hlt => ne_of_lt hlt
  rw [tally_counted queues hnd, leftOut, finishedCount, countedAgain, ← Tally.tally_ite,
    ← Tally.tally_ite, ← Tally.tally_countP, ← Tally.tally_countP, ← Tally.tally_add,
    ← Tally.tally_add]
  refine Tally.tally_congr fun job _ => ?_
  cases htime : time job with
  | none => simp
  | some t =>
      simp only [Option.any_some, hourFloor_mem, Bool.and_eq_true, decide_eq_true_eq,
        queueSelected_iff]
      generalize mentions queues job.queueName = m
      by_cases hin : InWindow start stop t
      · by_cases hnext : t < nextHour start
        · have hroom : ¬ nextHour start ≤ t := Int.not_le.2 hnext
          simp only [hin, hnext, hroom, and_self, and_true, and_false, if_true, if_false]
          split <;> omega
        · have hroom : nextHour start ≤ t := Int.not_lt.1 hnext
          simp only [hin, hnext, hroom, and_self, and_true, and_false, if_false]
          omega
      · simp only [hin, false_and, and_false, if_false]

-- == accepted

theorem resolveRange_span {query : StatsQuery} {now : DateTime}
    (h : resolveRange query now = .ok (start, stop)) : stop - start ≤ maxBuckets * oneHour := by
  unfold resolveRange at h
  obtain ⟨-, hle, hlt⟩ := hourFloor_spec now
  split at h
  case h_1 hours _ =>
    split at h
    case isTrue => cases h
    case isFalse hhours =>
      obtain ⟨rfl, rfl⟩ := Prod.mk.inj (Except.ok.inj h)
      dsimp only [oneHour, oneSecond, TimeDelta, DateTime, maxBuckets] at *
      omega
  case h_2 =>
    split at h
    case h_1 range _ =>
      split at h
      case isTrue => cases h
      case isFalse =>
        split at h
        case isTrue => cases h
        case isFalse hspan =>
          obtain ⟨rfl, rfl⟩ := Prod.mk.inj (Except.ok.inj h)
          exact Int.not_lt.1 hspan
    case h_2 =>
      obtain ⟨rfl, rfl⟩ := Prod.mk.inj (Except.ok.inj h)
      dsimp only [oneHour, oneSecond, TimeDelta, DateTime, maxBuckets] at *
      omega

/-- Of the hours of a request that is accepted, one may be left over. -/
theorem windowHour_cases (hspan : stop - start ≤ maxBuckets * oneHour)
    (h : WindowHour start stop hour) :
    hour ∈ hourRange start stop ∨ (hour = nextHour start ∧ nextHour start < stop) := by
  obtain ⟨hwhole, hle, hlt⟩ := hourFloor_spec start
  obtain ⟨hhour, hfirst, hstop⟩ := id h
  by_cases hnext : hour < nextHour start
  · exact .inl (mem_hourRange.2 ⟨h, hnext⟩)
  · have heq : hour = nextHour start := by
      unfold nextHour at *
      dsimp only [oneHour, oneSecond, TimeDelta, DateTime, maxBuckets] at *
      omega
    exact .inr ⟨heq, heq ▸ hstop⟩

/-- The buckets are those of the hours listed. -/
theorem exists_bucket_iff {bucket : DateTime} {queues : Option (List String)} :
    (∃ trend ∈ computeTrends history start stop queues granularity, trend.hour = bucket) ↔
      ∃ hour ∈ hourRange start stop, bucketStart granularity hour = bucket := by
  have hmem : bucket ∈ (computeTrends history start stop queues granularity).map HourlyTrend.hour ↔
      bucket ∈ ((hourRange start stop).map
        (hourTrend history queues granularity)).map HourlyTrend.hour := by
    rw [computeTrends_eq]
    apply RollUp.mem_map_rollUp
    intro _ _
    rfl
  rw [List.map_map, List.mem_map, List.mem_map] at hmem
  exact hmem

/-- Buckets are in strict order. -/
theorem increasing_computeTrends (history : List Job) (start stop : DateTime)
    (queues : Option (List String)) (granularity : Granularity) :
    (computeTrends history start stop queues granularity).Pairwise
      fun a b => a.hour < b.hour := by
  rw [computeTrends_eq]
  refine RollUp.pairwise_rollUp (fun _ _ => rfl) (List.pairwise_map.2 ?_)
  exact (pairwise_hoursFrom maxBuckets (hourFloor start)).imp fun hlt =>
    bucketStart_mono (le_of_lt hlt)

/-- Every hour of the window has its bucket if the one left over shares
that of the hour before. -/
theorem covered_iff {queues : Option (List String)}
    (hspan : stop - start ≤ maxBuckets * oneHour) :
    (∀ hour, WindowHour start stop hour →
        ∃! trend, trend ∈ computeTrends history start stop queues granularity ∧
          trend.hour = bucketStart granularity hour) ↔
      (nextHour start < stop → bucketStart granularity (nextHour start)
        = bucketStart granularity (nextHour start - oneHour)) := by
  obtain ⟨hwhole, hle, hlt⟩ := hourFloor_spec start
  have hnext : nextHour start < stop → WindowHour start stop (nextHour start) := by
    intro hstop
    refine ⟨?_, ?_, hstop⟩
    all_goals
      unfold nextHour at *
      dsimp only [oneHour, oneSecond, TimeDelta, DateTime, maxBuckets] at *
      omega
  have hlast : nextHour start < stop → nextHour start - oneHour ∈ hourRange start stop := by
    intro hstop
    refine mem_hourRange.2 ⟨⟨?_, ?_, ?_⟩, ?_⟩
    all_goals
      unfold nextHour at *
      dsimp only [oneHour, oneSecond, TimeDelta, DateTime, maxBuckets] at *
      omega
  constructor
  · intro h hstop
    obtain ⟨trend, ⟨hmem, heq⟩, -⟩ := h _ (hnext hstop)
    obtain ⟨hour, hhour, hbucket⟩ := exists_bucket_iff.1 ⟨trend, hmem, heq⟩
    -- the bucket of an earlier hour reaches to this one
    have hbefore : hour ≤ nextHour start - oneHour := by
      obtain ⟨⟨hmod, -, -⟩, hroom⟩ := mem_hourRange.1 hhour
      unfold nextHour at *
      dsimp only [oneHour, oneSecond, TimeDelta, DateTime, maxBuckets] at *
      omega
    refine le_antisymm ?_ (bucketStart_mono ?_)
    · rw [← hbucket]
      exact bucketStart_mono hbefore
    · exact Int.sub_le_self _ (by decide)
  · intro h hour hhour
    have hbucket : ∃ other ∈ hourRange start stop,
        bucketStart granularity other = bucketStart granularity hour := by
      rcases windowHour_cases hspan hhour with hmem | ⟨rfl, hstop⟩
      · exact ⟨hour, hmem, rfl⟩
      · exact ⟨_, hlast hstop, (h hstop).symm⟩
    obtain ⟨trend, hmem, heq⟩ := exists_bucket_iff.2 hbucket
    refine ⟨trend, ⟨hmem, heq⟩, fun other ⟨hother, heq'⟩ => ?_⟩
    have hnd := List.pairwise_map.2 ((increasing_computeTrends history start stop queues
      granularity).imp fun hlt => ne_of_lt hlt)
    exact List.inj_on_of_nodup_map hnd hother hmem (heq'.trans heq.symm)

/-- The sums of the buckets, and the jobs they should be of. -/
theorem tally_computeTrends (history : List Job) (start stop : DateTime)
    (queues : Option (List String)) (granularity : Granularity) :
    tally HourlyTrend.completed (computeTrends history start stop queues granularity)
          + leftOut history start stop queues completedTime
        = finishedCount history start stop queues completedTime
          + countedAgain history start stop queues completedTime ∧
      tally HourlyTrend.failed (computeTrends history start stop queues granularity)
          + leftOut history start stop queues failedTime
        = finishedCount history start stop queues failedTime
          + countedAgain history start stop queues failedTime := by
  rw [computeTrends_eq, RollUp.tally_rollUp fun _ _ => rfl, RollUp.tally_rollUp fun _ _ => rfl]
  unfold tally
  rw [List.map_map, List.map_map]
  exact ⟨tally_counted_add history start stop queues completedTime,
    tally_counted_add history start stop queues failedTime⟩

/-- The trends of a request that is accepted count every finished job of the
window once, in one bucket for each hour, exactly if what further mentions of
a queue add is what finished in the hour there is no room for, and that hour
shares the bucket of the one before. -/
theorem trendsCount_iff {query : StatsQuery} {now : DateTime}
    (h : resolveRange query now = .ok (start, stop)) :
    TrendsCount history start stop query.queues granularity
        (computeTrends history start stop query.queues granularity) ↔
      Balanced history start stop query.queues granularity := by
  have hspan := resolveRange_span h
  obtain ⟨hcompleted, hfailed⟩ :=
    tally_computeTrends history start stop query.queues granularity
  constructor
  · intro hcount
    have hc := hcount.completed
    have hf := hcount.failed
    exact ⟨by omega, by omega, (covered_iff hspan).1 hcount.covered⟩
  · intro hbalanced
    have hc := hbalanced.completed
    have hf := hbalanced.failed
    exact ⟨by omega, by omega,
      increasing_computeTrends history start stop query.queues granularity,
      (covered_iff hspan).2 hbalanced.last⟩

/-- A job that completed at `time`. -/
def mailCompleted (time : DateTime) : Job :=
  { Job.new 1 0 "mail" .null with status := .completed, completedAt := some time }

/-- Two hours of a queue that is named once, with a job in the second. -/
theorem trendsCount_two_hours :
    TrendsCount [mailCompleted (oneHour + 1)] 0 (2 * oneHour) (some ["mail"]) .day
      (computeTrends [mailCompleted (oneHour + 1)] 0 (2 * oneHour) (some ["mail"]) .day) :=
  have haccepted : resolveRange ⟨some ⟨0, 2 * oneHour⟩, some ["mail"], none⟩ 0
      = .ok (0, 2 * oneHour) := rfl
  (trendsCount_iff haccepted).2 ⟨by decide, by decide, fun h => absurd h (by decide)⟩

/-- A job is counted twice if its queue is named twice, and not at all if it
finished in the last half hour of 31 days from half past. -/
theorem not_trendsCount :
    (resolveRange ⟨none, some ["mail", "mail"], some 1⟩ (oneHour / 2) = .ok (0, oneHour / 2) ∧
      ¬ TrendsCount [mailCompleted 1] 0 (oneHour / 2) (some ["mail", "mail"]) .hour
        (computeTrends [mailCompleted 1] 0 (oneHour / 2) (some ["mail", "mail"]) .hour)) ∧
    (resolveRange ⟨some ⟨oneHour / 2, oneHour / 2 + 744 * oneHour⟩, none, none⟩ 0
        = .ok (oneHour / 2, oneHour / 2 + 744 * oneHour) ∧
      ¬ TrendsCount [mailCompleted (744 * oneHour)] (oneHour / 2) (oneHour / 2 + 744 * oneHour)
        none .hour (computeTrends [mailCompleted (744 * oneHour)] (oneHour / 2)
          (oneHour / 2 + 744 * oneHour) none .hour)) := by
  refine ⟨⟨rfl, fun h => ?_⟩, ⟨rfl, fun h => ?_⟩⟩
  · obtain ⟨hsum, -⟩ := tally_computeTrends [mailCompleted 1] 0 (oneHour / 2)
      (some ["mail", "mail"]) .hour
    rw [h.completed] at hsum
    exact absurd (Nat.add_left_cancel hsum) (by decide)
  · obtain ⟨hsum, -⟩ := tally_computeTrends [mailCompleted (744 * oneHour)] (oneHour / 2)
      (oneHour / 2 + 744 * oneHour) none .hour
    rw [h.completed] at hsum
    exact absurd (Nat.add_left_cancel hsum) (by decide)

end Trends

end Hammerwork
