/-
The dashboard's login, and the lockout after failures.

A check passes the lockout gate, looks its credentials up among those
verified a moment ago, verifies the password, which takes long, and records
a failure or clears the failures of its client. Each of these is a step of
its own, and the steps of any number of checks come in any order.

The keyed digest and bcrypt are another library's; so are the answers of
bcrypt, which do not change. Times are read from a clock that does not go
back, in nanoseconds.
-/
import Hammerwork.Lib.Run
import Hammerwork.Lib.Table
import Mathlib.Data.List.MinMax
import Mathlib.Algebra.Ring.Nat

namespace Hammerwork

namespace Auth

-- == clients

abbrev Instant := Nat

/-- An address of a client. -/
inductive IpAddr where
  | v4 (bits : BitVec 32)
  | v6 (bits : BitVec 128)
  deriving DecidableEq

/-- IPv4-mapped IPv6 addresses are IPv4 addresses. -/
def IpAddr.toCanonical : IpAddr → IpAddr
  | .v4 bits => .v4 bits
  | .v6 bits => if bits >>> 32 = 0xffff then .v4 (bits.truncate 32) else .v6 bits

/-- The address failures are counted under: IPv6 clients are grouped by
their /64 network. -/
def clientKey (addr : IpAddr) : IpAddr :=
  match addr.toCanonical with
  | .v6 bits => .v6 ((bits >>> 64) <<< 64)
  | v4 => v4

/-- Whose failures are counted together. -/
structure AttemptKey where
  client : Option IpAddr
  configuredUser : Bool
  deriving DecidableEq

structure Failures where
  count : Nat
  last : Instant
  deriving DecidableEq

inductive Verdict where
  | accepted
  | rejected
  | lockedOut
  deriving DecidableEq

structure AuthConfig where
  enabled : Bool
  username : String
  passwordHash : String
  sessionTimeout : Nat
  maxFailedAttempts : UInt32
  lockoutDuration : Nat

/-- The configuration, and what other libraries compute: the digest of some
texts under the key of the process, and whether a password has a hash. -/
structure Inner (δ : Type) where
  config : AuthConfig
  keyedDigest : List String → δ
  bcryptVerify : String → String → Bool

/-- The most clients whose failures are tracked at once. -/
def maxTrackedClients : Nat := 10000

/-- How long a verification is remembered, in nanoseconds. -/
def verifiedCredentialsTtl : Nat := 60 * 1000000000

/-- The most remembered verifications. -/
def maxVerifiedCredentials : Nat := 64

def u32Max : Nat := 2 ^ 32 - 1

abbrev Attempts := Table AttemptKey Failures

variable {δ : Type} [DecidableEq δ] (inner : Inner δ)

-- == failures

def usernameMatches (username : String) : Bool :=
  inner.keyedDigest ["username", username]
    = inner.keyedDigest ["username", inner.config.username]

def attemptKey (client : Option IpAddr) (username : String) : AttemptKey where
  client := client.map clientKey
  configuredUser := usernameMatches inner username

/-- An empty hash accepts no password. -/
def verifyPassword (password : String) : Bool :=
  !inner.config.passwordHash.isEmpty && inner.bcryptVerify password inner.config.passwordHash

/-- A record that locks its client out. -/
def Failures.lockOut (config : AuthConfig) (now : Instant) (failures : Failures) : Bool :=
  config.maxFailedAttempts.toNat ≤ failures.count && now - failures.last < config.lockoutDuration

def keyLockedOut (attempts : Attempts) (now : Instant) (key : AttemptKey) : Bool :=
  (attempts.lookup key).any (Failures.lockOut inner.config now)

/-- A record with one more failure; one whose last failure is older than the
lockout starts over. -/
def Failures.add (lockout : Nat) (now : Instant) (failures : Option Failures) : Failures :=
  let failures := failures.getD ⟨0, now⟩
  let count := if lockout ≤ now - failures.last then 0 else failures.count
  ⟨min (count + 1) u32Max, now⟩

/-- The records that have not expired. -/
def unexpired (lockout : Nat) (now : Instant) (attempts : Attempts) : Attempts :=
  attempts.retain fun _ failures => now - failures.last < lockout

/-- Make room for a record if the table is full: drop the expired ones, then
the one whose last failure is the oldest. -/
def makeRoom (now : Instant) (key : AttemptKey) (attempts : Attempts) : Attempts :=
  if key ∉ attempts ∧ maxTrackedClients ≤ attempts.entries.length then
    let attempts := unexpired inner.config.lockoutDuration now attempts
    if maxTrackedClients ≤ attempts.entries.length then
      match attempts.entries.argmin fun entry => entry.2.last with
      | some stalest => attempts.erase stalest.1
      | none => attempts
    else
      attempts
  else
    attempts

def recordFailedAttempt (now : Instant) (key : AttemptKey) (attempts : Attempts) : Attempts :=
  let attempts := makeRoom inner now key attempts
  attempts.insert key (Failures.add inner.config.lockoutDuration now (attempts.lookup key))

def clearFailedAttempts (key : AttemptKey) (attempts : Attempts) : Attempts := attempts.erase key

-- == verifications

def credentialsDigest (username password : String) : δ :=
  inner.keyedDigest ["credentials", username, password]

/-- The credentials have been verified a moment ago; the verifications
left. -/
def recentlyVerified (now : Instant) (credentials : δ) (verified : Table δ Instant) :
    Bool × Table δ Instant :=
  match verified.lookup credentials with
  | some expires => if now < expires then (true, verified) else (false, verified.erase credentials)
  | none => (false, verified)

def rememberVerified (now : Instant) (credentials : δ) (verified : Table δ Instant) :
    Table δ Instant :=
  let ttl := min verifiedCredentialsTtl inner.config.sessionTimeout
  if ttl = 0 then
    verified
  else
    let verified :=
      if maxVerifiedCredentials ≤ verified.entries.length then
        let verified := verified.retain fun _ expires => now < expires
        if maxVerifiedCredentials ≤ verified.entries.length then ∅ else verified
      else
        verified
    verified.insert credentials (now + ttl)

-- == checks

/-- Where a check is. -/
inductive Phase where
  /-- before the lockout gate -/
  | entered
  /-- past the gate -/
  | passed
  /-- before the verification of the password -/
  | verifying
  /-- before its credentials are remembered -/
  | remembering
  /-- before its client's failures are cleared -/
  | clearing
  /-- before its failure is recorded -/
  | recording
  | done (verdict : Verdict)
  deriving DecidableEq

/-- A call of `check`. -/
structure Check where
  client : Option IpAddr
  username : String
  password : String
  phase : Phase
  deriving DecidableEq

/-- What the checks share, and the checks so far. -/
structure State (δ : Type) where
  now : Instant
  failedAttempts : Attempts
  verified : Table δ Instant
  checks : List Check

/-- A state before the first check. -/
def State.initial (now : Instant) : State δ := ⟨now, ∅, ∅, []⟩

def Check.key (c : Check) : AttemptKey := attemptKey inner c.client c.username

/-- The credentials are the configured ones. -/
def Check.correct (c : Check) : Bool :=
  (c.key inner).configuredUser && verifyPassword inner c.password

/-- The next step of a check: its phase after it, the failures and the
verifications. -/
def Check.proceed (s : State δ) (c : Check) : Option (Phase × Attempts × Table δ Instant) :=
  let key := c.key inner
  let credentials := credentialsDigest inner c.username c.password
  match c.phase with
  | .entered =>
      if !inner.config.enabled then
        some (.done .accepted, s.failedAttempts, s.verified)
      else if keyLockedOut inner s.failedAttempts s.now key then
        some (.done .lockedOut, s.failedAttempts, s.verified)
      else
        some (.passed, s.failedAttempts, s.verified)
  | .passed =>
      let (found, verified) := recentlyVerified s.now credentials s.verified
      some (if found then .clearing else .verifying, s.failedAttempts, verified)
  | .verifying =>
      some (if c.correct inner then .remembering else .recording, s.failedAttempts, s.verified)
  | .remembering =>
      some (.clearing, s.failedAttempts, rememberVerified inner s.now credentials s.verified)
  | .clearing => some (.done .accepted, clearFailedAttempts key s.failedAttempts, s.verified)
  | .recording =>
      some (.done .rejected, recordFailedAttempt inner s.now key s.failedAttempts, s.verified)
  | .done _ => none

inductive Event where
  | tick (time : Nat)
  | enter (client : Option IpAddr) (username password : String)
  | proceed (i : Nat)
  | dropFailures
  | dropVerified (read : Instant)

/-- One step: time passes, a check comes in or goes on, or the cleanup drops
what has expired. -/
def step (s : State δ) : Event → Option (State δ)
  | .tick time => some { s with now := s.now + time }
  | .enter client username password =>
      some { s with checks := s.checks ++ [⟨client, username, password, .entered⟩] }
  | .proceed i =>
      match s.checks[i]? with
      | none => none
      | some c =>
          (c.proceed inner s).map fun (phase, attempts, verified) =>
            { s with
              failedAttempts := attempts
              verified := verified
              checks := s.checks.set i { c with phase } }
  | .dropFailures =>
      some { s with
        failedAttempts := unexpired inner.config.lockoutDuration s.now s.failedAttempts }
  | .dropVerified read =>
      -- the clock has been read before the expired failures are dropped
      if read ≤ s.now then
        some { s with verified := s.verified.retain fun _ expires => read < expires }
      else
        none

/-- Runs of the checks. -/
abbrev CheckRun (n : Nat) := Run (fun (s : State δ) e s' => step inner s e = some s') n

end Auth

end Hammerwork
