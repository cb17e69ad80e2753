/-
Sealing: encrypting the payloads of jobs before they are stored.

A job is sealed when it asks for encryption, or when its queue is one of
those encrypted by default. Sealing a list of jobs stops at the first
that cannot be sealed; nothing of the list is written then. The cipher
itself is a parameter: an engine is known by its settings and by what it
returns for a job.
-/
import Hammerwork.Job
import Mathlib.Data.List.Forall2

namespace Hammerwork

/-- The name of a cipher in error messages. -/
def EncryptionAlgorithm.debugStr : EncryptionAlgorithm → String
  | .aes256Gcm => "AES256GCM"
  | .chaCha20Poly1305 => "ChaCha20Poly1305"

/-- An encryption engine: its settings, and the redacted payload and
ciphertext it makes of a job. -/
structure EncryptionEngine where
  algorithm : EncryptionAlgorithm
  keyId : String
  compressionEnabled : Bool
  encrypt : Job → Except String (Json × EncryptedPayload)

/-- The engine of a queue, and the queues whose jobs it encrypts by
default (`"*"`: all). -/
structure PayloadEncryption where
  engine : Option EncryptionEngine
  encryptedQueues : List String

/-- Encrypt the payload of a job that asks for it. -/
def sealJob (engine : EncryptionEngine) (job : Job) : Except HammerworkError Job :=
  match job.encryptionConfig with
  | none => .ok job
  | some config =>
      if job.isEncrypted then
        .ok job
      else if config.algorithm ≠ engine.algorithm then
        .error (.encryption s!"Invalid configuration: Job {job.id} asks for {config.algorithm.debugStr} but the queue's encryption engine uses {engine.algorithm.debugStr}")
      else
        match config.keyId.filter (· ≠ engine.keyId) with
        | some keyId =>
            .error (.encryption s!"Invalid configuration: Job {job.id} asks for key '{keyId}' but the queue's encryption engine encrypts with key '{engine.keyId}'")
        | none =>
            match engine.encrypt job with
            | .error message => .error (.encryption message)
            | .ok (storedPayload, encrypted) =>
                .ok { job with
                  payload := storedPayload
                  isEncrypted := true
                  encryptedPayload := some encrypted }

namespace PayloadEncryption

/-- Whether jobs on `queueName` are encrypted without asking. -/
def encryptsQueue (encryption : PayloadEncryption) (queueName : String) : Bool :=
  encryption.encryptedQueues.any fun queue => queue = "*" || queue = queueName

/-- The job with the encryption its queue gives it by default. -/
def withQueueDefault (encryption : PayloadEncryption) (job : Job) : Job :=
  match encryption.engine with
  | some engine =>
      if job.encryptionConfig.isNone && encryption.encryptsQueue job.queueName then
        let config : EncryptionConfig :=
          { algorithm := engine.algorithm
            compressionEnabled := engine.compressionEnabled
            keyId := some engine.keyId }
        { job with encryptionConfig := some config }
      else
        job
  | none => job

/-- Seal one job. -/
def sealOne (encryption : PayloadEncryption) (job : Job) : Except HammerworkError Job :=
  if job.isEncrypted then
    .ok job
  else
    let job := encryption.withQueueDefault job
    if !job.hasEncryption then
      .ok job
    else
      match encryption.engine with
      | none =>
          .error (.encryption s!"Job {job.id} has an encryption config but the queue has no encryption engine; configure one with JobQueue::with_encryption")
      | some engine => sealJob engine job

/-- Seal jobs about to be written. -/
def sealJobs (encryption : PayloadEncryption) (jobs : List Job) :
    Except HammerworkError (List Job) :=
  jobs.mapM encryption.sealOne

end PayloadEncryption

-- == what sealing leaves be

/-- `sealed` is `job` but for its payload and how it is encrypted. -/
structure Job.SameButPayload (job sealed : Job) : Prop where
  eq : sealed = { job with
    payload := sealed.payload
    encryptionConfig := sealed.encryptionConfig
    isEncrypted := sealed.isEncrypted
    encryptedPayload := sealed.encryptedPayload }

theorem Job.SameButPayload.refl (job : Job) : job.SameButPayload job := ⟨rfl⟩

/-- Sealing rewrites nothing but the payload and its encryption. -/
theorem PayloadEncryption.sealOne_same {encryption : PayloadEncryption} {job sealed : Job}
    (h : encryption.sealOne job = .ok sealed) : job.SameButPayload sealed := by
  have hdefault : ∀ job : Job, job.SameButPayload (encryption.withQueueDefault job) := by
    intro job
    unfold withQueueDefault
    split
    · split <;> exact ⟨rfl⟩
    · exact ⟨rfl⟩
  unfold sealOne at h
  split at h
  · injection h with h
    exact h ▸ .refl job
  · dsimp only at h
    split at h
    · injection h with h
      exact h ▸ hdefault job
    · split at h
      · cases h
      · unfold sealJob at h
        split at h
        · injection h with h
          exact h ▸ hdefault job
        · split at h
          · injection h with h
            exact h ▸ hdefault job
          · split at h
            · cases h
            · split at h
              · cases h
              · split at h
                · cases h
                · injection h with h
                  subst h
                  refine ⟨?_⟩
                  rw [(hdefault job).eq]

/-- Sealed jobs are the jobs, one by one, but for their payloads. -/
theorem PayloadEncryption.sealJobs_same {encryption : PayloadEncryption} :
    ∀ {jobs sealed : List Job}, encryption.sealJobs jobs = .ok sealed →
      List.Forall₂ Job.SameButPayload jobs sealed := by
  intro jobs
  induction jobs with
  | nil =>
      intro sealed h
      simp only [PayloadEncryption.sealJobs, List.mapM_nil] at h
      cases h
      exact .nil
  | cons job jobs ih =>
      intro sealed h
      simp only [PayloadEncryption.sealJobs, List.mapM_cons] at h
      cases hone : encryption.sealOne job with
      | error e => rw [hone] at h; cases h
      | ok one =>
          rw [hone] at h
          cases hrest : jobs.mapM encryption.sealOne with
          | error e =>
              simp only [hrest] at h
              cases h
          | ok rest =>
              simp only [hrest] at h
              cases h
              exact .cons (sealOne_same hone) (ih hrest)

end Hammerwork
