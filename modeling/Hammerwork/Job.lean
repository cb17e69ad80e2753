/-
The job record and the values it carries.

One `Job` is one row of the queue: its identity and queue, the status
of its lifecycle, the times that status left behind, its recurring
schedule, its dependencies, and the settings a spawned child inherits.
Records are built by `Job.new` and the builder methods; every other
module only reads and rewrites them.

What a job carries without the queue looking inside (the payload, the
retry strategy) keeps its shape here, so that a copy of a job is a copy
of all of it.
-/
import Hammerwork.Time

namespace Hammerwork

/-- The identity of a job (a UUID): compared, ordered, never computed
with. -/
abbrev JobId := Nat

/-- The identity of a workflow. -/
abbrev WorkflowId := Nat

/-- The identity of a batch. -/
abbrev BatchId := Nat

-- == errors

/-- The errors the queue's operations return. -/
inductive HammerworkError where
  | jobNotFound (id : String)
  | invalidJobTransition (jobId status transition : String)
  | queue (message : String)
  | batch (message : String)
  | workflow (message : String)
  | spawn (message : String)
  | encryption (message : String)
  deriving DecidableEq, Repr

/-- The error every operation returns for a job that is not stored. -/
def jobNotFound (id : JobId) : HammerworkError := .jobNotFound (toString id)

-- == enums

/-- The current status of a job in its lifecycle. -/
inductive JobStatus where
  | pending
  | running
  | completed
  | failed
  | dead
  | timedOut
  | retrying
  | archived
  deriving DecidableEq, Repr

/-- The stored name of a status. -/
def JobStatus.asStr : JobStatus → String
  | .pending => "Pending"
  | .running => "Running"
  | .completed => "Completed"
  | .failed => "Failed"
  | .dead => "Dead"
  | .timedOut => "TimedOut"
  | .retrying => "Retrying"
  | .archived => "Archived"

/-- Whether a job's dependencies hold it back. -/
inductive DependencyStatus where
  | none
  | waiting
  | satisfied
  | failed
  deriving DecidableEq, Repr

/-- The priority levels, lowest first. -/
inductive JobPriority where
  | background
  | low
  | normal
  | high
  | critical
  deriving DecidableEq, Repr

/-- The stored number of a priority level. -/
def JobPriority.asI32 : JobPriority → Nat
  | .background => 0
  | .low => 1
  | .normal => 2
  | .high => 3
  | .critical => 4

-- == payloads

/-- A JSON value; numbers keep their text. -/
inductive Json where
  | null
  | bool (b : Bool)
  | number (text : String)
  | string (text : String)
  | array (items : List Json)
  | object (members : List (String × Json))

/-- Random spread around a retry delay. Floating-point parameters are
carried as their bits. -/
inductive JitterType where
  | additive (amount : Duration)
  | multiplicative (factorBits : UInt64)

/-- How the delay before a retry is computed. Floating-point parameters
are carried as their bits. -/
inductive RetryStrategy where
  | fixed (delay : Duration)
  | linear (base increment : Duration) (maxDelay : Option Duration)
  | exponential (base : Duration) (multiplierBits : UInt64)
      (maxDelay : Option Duration) (jitter : Option JitterType)
  | fibonacci (base : Duration) (maxDelay : Option Duration)
  | custom (delay : Nat → Duration)

/-- The ciphers a payload can be sealed with. -/
inductive EncryptionAlgorithm where
  | aes256Gcm
  | chaCha20Poly1305
  deriving DecidableEq, Repr

/-- How long a sealed payload is kept. -/
inductive RetentionPolicy where
  | deleteAfter (span : Duration)
  | deleteAt (time : DateTime)
  | keepIndefinitely
  | deleteImmediately
  | useDefault

/-- How a job asks to be encrypted. -/
structure EncryptionConfig where
  algorithm : EncryptionAlgorithm
  compressionEnabled : Bool
  keyId : Option String

/-- The ciphertext of a sealed payload, with the time it is to be
deleted. -/
structure EncryptedPayload where
  ciphertext : String
  nonce : String
  tag : String
  deleteAt : Option DateTime

-- == the job

/-- The most jobs a single job can depend on. -/
def maxJobDependencies : Nat := 1000

/-- The most job ids a job's cached `dependents` list can hold. -/
def maxJobDependents : Nat := 10000

/-- A job, as a caller builds it and as the queue stores it. -/
structure Job where
  id : JobId
  queueName : String
  payload : Json
  status : JobStatus
  attempts : Int
  maxAttempts : Int
  createdAt : DateTime
  scheduledAt : DateTime
  startedAt : Option DateTime
  completedAt : Option DateTime
  failedAt : Option DateTime
  timedOutAt : Option DateTime
  timeout : Option Duration
  errorMessage : Option String
  priority : JobPriority
  cronSchedule : Option String
  nextRunAt : Option DateTime
  recurring : Bool
  timezone : Option String
  batchId : Option BatchId
  resultData : Option Json
  resultStoredAt : Option DateTime
  resultExpiresAt : Option DateTime
  retryStrategy : Option RetryStrategy
  dependsOn : List JobId
  dependents : List JobId
  dependencyStatus : DependencyStatus
  workflowId : Option WorkflowId
  workflowName : Option String
  traceId : Option String
  correlationId : Option String
  parentSpanId : Option String
  spanContext : Option String
  encryptionConfig : Option EncryptionConfig
  piiFields : List String
  retentionPolicy : Option RetentionPolicy
  isEncrypted : Bool
  encryptedPayload : Option EncryptedPayload

namespace Job

/-- A new job on `queueName`, made at wall-clock time `now` under the
fresh id `id`. -/
def new (id : JobId) (now : DateTime) (queueName : String) (payload : Json) : Job where
  id := id
  queueName := queueName
  payload := payload
  status := .pending
  attempts := 0
  maxAttempts := 3
  createdAt := now
  scheduledAt := now
  startedAt := none
  completedAt := none
  failedAt := none
  timedOutAt := none
  timeout := none
  errorMessage := none
  priority := .normal
  cronSchedule := none
  nextRunAt := none
  recurring := false
  timezone := none
  batchId := none
  resultData := none
  resultStoredAt := none
  resultExpiresAt := none
  retryStrategy := none
  dependsOn := []
  dependents := []
  dependencyStatus := .none
  workflowId := none
  workflowName := none
  traceId := none
  correlationId := none
  parentSpanId := none
  spanContext := none
  encryptionConfig := none
  piiFields := []
  retentionPolicy := none
  isEncrypted := false
  encryptedPayload := none

/-- Adds a dependency on another job. -/
def addDependsOn (job : Job) (jobId : JobId) : Job :=
  { job with dependsOn := job.dependsOn ++ [jobId], dependencyStatus := .waiting }

/-- Adds dependencies on several other jobs. -/
def addDependsOnJobs (job : Job) (jobIds : List JobId) : Job :=
  { job with
    dependsOn := job.dependsOn ++ jobIds
    dependencyStatus := if jobIds.isEmpty then job.dependencyStatus else .waiting }

/-- Sets the workflow the job belongs to. -/
def withWorkflow (job : Job) (workflowId : WorkflowId) (workflowName : String) : Job :=
  { job with workflowId := some workflowId, workflowName := some workflowName }

/-- Whether the job asks for encryption. -/
def hasEncryption (job : Job) : Bool := job.encryptionConfig.isSome

/-- Checks that the dependency lists fit the limits every backend
enforces. -/
def validateDependencies (job : Job) : Except HammerworkError Unit :=
  if job.dependsOn.length > maxJobDependencies then
    .error (.workflow s!"Job {job.id} depends on {job.dependsOn.length} jobs; a job can depend on at most {maxJobDependencies} jobs (add intermediate jobs for a larger fan-in)")
  else if job.dependents.length > maxJobDependents then
    .error (.workflow s!"Job {job.id} lists {job.dependents.length} dependents; at most {maxJobDependents} are allowed")
  else
    .ok ()

end Job

/-- Check `Job.validateDependencies` for every job, stopping at the
first refusal. -/
def validateDependencyLimits (jobs : List Job) : Except HammerworkError Unit :=
  jobs.forM Job.validateDependencies

end Hammerwork
