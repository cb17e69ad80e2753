/-
When the comparison of origins as texts is one of origins.

An origin is a scheme, a host and an effective port, which is the default of
the scheme if none is written (`readOrigin`). The text of an authority is its
host and the text of its port (`authority_eq`), so that texts tell origins
apart except for how a port is written.

A list finds every origin on it but for those whose port is written in
another way: a default port written out, or zeros before the digits. The
comparison with the host leaves default ports out. There it is the zeros that
count, and what follows a colon without being a default port: with a default
port after that, it is taken for a host.
-/
import Hammerwork.Origins
import Mathlib

namespace Hammerwork

namespace Origins

open PayloadTemplate (trim)

-- == splitting

theorem rsplitOnce_append {c : Char} (before : Text) {after : Text} (h : c ∉ after) :
    rsplitOnce c (before ++ c :: after) = some (before, after) := by
  have hother : ∀ a ∈ after.reverse, decide (a ≠ c) = true := by
    intro a ha
    exact decide_eq_true fun hac => h (hac ▸ List.mem_reverse.1 ha)
  have hreverse : (before ++ c :: after).reverse = after.reverse ++ c :: before.reverse := by simp
  rw [rsplitOnce, if_pos (by simp), List.rdropWhile, List.rtakeWhile, hreverse,
    List.dropWhile_append_of_pos hother, List.takeWhile_append_of_pos hother]
  simp

/-- The last `c` has no other after it. -/
theorem rsplitOnce_eq_some {c : Char} {text before after : Text} :
    rsplitOnce c text = some (before, after) ↔ text = before ++ c :: after ∧ c ∉ after := by
  constructor
  · intro h
    have hmem : c ∈ text.reverse := by
      by_contra hnot
      rw [rsplitOnce, if_neg (by simpa using hnot)] at h
      cases h
    obtain ⟨as, bs, hsplit, hnot⟩ := List.eq_append_cons_of_mem hmem
    have htext : text = bs.reverse ++ c :: as.reverse := by
      rw [← List.reverse_reverse text, hsplit]
      simp
    rw [htext, rsplitOnce_append _ (by simpa using hnot)] at h
    cases h
    exact ⟨htext, by simpa using hnot⟩
  · rintro ⟨rfl, h⟩
    exact rsplitOnce_append before h

/-- The scheme ends at the separator. -/
theorem dropInfix?_separator {scheme : Text} (h : scheme = http ∨ scheme = https)
    (authority : Text) :
    (scheme ++ separator ++ authority).dropInfix? separator = some (scheme, authority) := by
  obtain rfl | rfl := h
  · simp [http, separator, List.dropInfix?, List.dropInfix?.go, List.dropPrefix?]
  · simp [https, separator, List.dropInfix?, List.dropInfix?.go, List.dropPrefix?]

-- == lower case

/-- A text of characters from one in lower case. -/
theorem toAsciiLowercase_eq_self {text : Text} (other : Text)
    (h : ∀ c ∈ text, c ∈ toAsciiLowercase other) : toAsciiLowercase text = text := by
  have hself : ∀ c ∈ text, c.toLower = id c := by
    intro c hc
    obtain ⟨c', -, rfl⟩ := List.mem_map.1 (h c hc)
    exact Char.toLower_toLower_eq_toLower c'
  rw [toAsciiLowercase, List.map_congr_left hself, List.map_id]

-- == authority

/-- The port an authority has after its host. -/
def portOf (authority : Text) : Option Text :=
  match rsplitOnce ':' authority with
  | some (_, port) => if port.getLast? = some ']' then none else some port
  | none => none

/-- The text of a port, with its colon. -/
def portSuffix : Option Text → Text
  | some port => ':' :: port
  | none => []

/-- The default port of a scheme. -/
def defaultPort (scheme : Text) : Nat := if scheme = https then 443 else 80

/-- The port that is meant. -/
def effectivePort (scheme : Text) : Option Text → Nat
  | some port => number port
  | none => defaultPort scheme

theorem number_defaultPortText (scheme : Text) :
    number (defaultPortText scheme) = defaultPort scheme := by
  rw [defaultPortText, defaultPort]
  split
  · rfl
  · rfl

/-- The text of an authority is its host and the text of its port. -/
theorem authority_eq {authority host : Text} (h : hostOf authority = some host) :
    authority = host ++ portSuffix (portOf authority) := by
  rw [hostOf] at h
  rw [portOf]
  cases hsplit : rsplitOnce ':' authority with
  | none =>
      rw [hsplit] at h
      cases h
      simp [portSuffix]
  | some parts =>
      obtain ⟨before, port⟩ := parts
      rw [hsplit] at h
      dsimp only at h ⊢
      split at h
      case isTrue hbracket =>
        cases h
        simp [hbracket, portSuffix]
      case isFalse hbracket =>
        split at h
        · cases h
        · obtain ⟨-, -, rfl⟩ := Option.map_eq_some_iff.1 h
          rw [if_neg hbracket]
          exact (rsplitOnce_eq_some.1 hsplit).1

/-- Without a port an authority is a host. -/
theorem hostOf_of_portOf_none {authority : Text} (h : portOf authority = none) :
    hostOf authority = some authority := by
  rw [portOf] at h
  rw [hostOf]
  cases hsplit : rsplitOnce ':' authority with
  | none => rfl
  | some parts =>
      rw [hsplit] at h
      dsimp only at h ⊢
      split at h
      case isTrue hbracket => rw [if_pos hbracket]
      case isFalse => cases h

-- == reading

/-- A scheme, a host and a port. -/
structure Origin where
  scheme : Text
  host : Text
  port : Nat
  deriving DecidableEq

/-- The host and the port that an authority stands for under a scheme. -/
def readAuthority (scheme authority : Text) : Option Origin :=
  if authority.isEmpty || authority.any (· ∈ notInAuthority) then
    none
  else
    match hostOf authority with
    | none => none
    | some host =>
        if host.isEmpty then
          none
        else
          some ⟨scheme, host, effectivePort scheme (portOf authority)⟩

/-- The scheme and the authority of a text that is normalized to an origin. -/
def originParts (origin : Text) : Option (Text × Text) :=
  (normalizeOrigin origin).bind fun normalized => normalized.dropInfix? separator

/-- The origin that a text stands for. -/
def readOrigin (origin : Text) : Option Origin :=
  (originParts origin).bind fun parts => readAuthority parts.1 parts.2

theorem readAuthority_eq_some {scheme authority : Text} {origin : Origin} :
    readAuthority scheme authority = some origin ↔
      authority.any (· ∈ notInAuthority) = false ∧ hostOf authority = some origin.host
        ∧ origin.host ≠ [] ∧ origin.scheme = scheme
        ∧ origin.port = effectivePort scheme (portOf authority) := by
  obtain ⟨scheme', host, port⟩ := origin
  constructor
  · intro h
    rw [readAuthority] at h
    split at h
    · cases h
    · rename_i hvalid
      simp only [Bool.or_eq_true, not_or, Bool.not_eq_true] at hvalid
      split at h
      · cases h
      · split at h
        · cases h
        · rename_i hhost hempty
          cases h
          exact ⟨hvalid.2, hhost, by simpa using hempty, rfl, rfl⟩
  · rintro ⟨hvalid, hhost, hempty, hscheme, hport⟩
    dsimp only at hhost hempty hscheme hport
    subst hscheme hport
    have hauthority : authority ≠ [] := by
      rw [authority_eq hhost]
      simp [hempty]
    rw [readAuthority, if_neg (by simpa [hauthority] using hvalid), hhost]
    dsimp only
    rw [if_neg (by simpa using hempty)]

/-- A text that is normalized, unpacked. -/
theorem normalizeOrigin_eq_some {origin normalized : Text}
    (h : normalizeOrigin origin = some normalized) :
    ∃ scheme authority, (scheme = http ∨ scheme = https)
      ∧ normalized = scheme ++ separator ++ authority
      ∧ toAsciiLowercase authority = authority
      ∧ (readAuthority scheme authority).isSome := by
  simp only [normalizeOrigin] at h
  split at h
  · cases h
  rename_i scheme authority hsplit
  split at h
  · cases h
  rename_i hscheme
  split at h
  · cases h
  rename_i hvalid
  split at h
  · cases h
  rename_i host hhost
  split at h
  · cases h
  rename_i hempty
  cases h
  simp only [Bool.or_eq_true, Bool.not_eq_true', Bool.or_eq_false_iff, decide_eq_false_iff_not,
    not_or, not_and, not_not] at hscheme
  refine ⟨scheme, authority, ?_, rfl, ?_, ?_⟩
  · by_cases hhttp : scheme = http
    · exact .inl hhttp
    · exact .inr (hscheme.1 hhttp)
  · refine toAsciiLowercase_eq_self (trim origin) fun c hc => ?_
    obtain ⟨⟨i, htext, -⟩, -⟩ := List.dropInfix?_eq_some_iff.1 hsplit
    have hmem := htext ▸ List.mem_append_right (scheme ++ i) hc
    cases hslash : (toAsciiLowercase (trim origin)).dropSuffix? ['/'] with
    | none => simpa [hslash] using hmem
    | some text =>
        obtain ⟨s, hlower, -⟩ := List.dropSuffix?_eq_some_iff.1 hslash
        rw [hslash, Option.getD_some] at hmem
        rw [hlower]
        exact List.mem_append_left s hmem
  · refine Option.isSome_iff_exists.2 ⟨⟨scheme, host, effectivePort scheme (portOf authority)⟩,
      readAuthority_eq_some.2 ?_⟩
    exact ⟨by simpa using hvalid, hhost, by simpa using hempty, rfl, rfl⟩

/-- The parts of a text that is normalized. -/
theorem originParts_eq_some {origin scheme authority : Text} :
    originParts origin = some (scheme, authority) ↔
      (scheme = http ∨ scheme = https)
        ∧ normalizeOrigin origin = some (scheme ++ separator ++ authority) := by
  constructor
  · intro h
    obtain ⟨normalized, hnormalized, hsplit⟩ := Option.bind_eq_some_iff.1 h
    obtain ⟨scheme', authority', hscheme, rfl, -, -⟩ := normalizeOrigin_eq_some hnormalized
    rw [dropInfix?_separator hscheme] at hsplit
    cases hsplit
    exact ⟨hscheme, hnormalized⟩
  · rintro ⟨hscheme, hnormalized⟩
    rw [originParts, hnormalized]
    exact dropInfix?_separator hscheme authority

/-- The parts stand for an origin. -/
theorem readAuthority_originParts {origin scheme authority : Text}
    (h : originParts origin = some (scheme, authority)) :
    toAsciiLowercase authority = authority ∧ ∃ o, readAuthority scheme authority = some o := by
  obtain ⟨hscheme, hnormalized⟩ := originParts_eq_some.1 h
  obtain ⟨scheme', authority', hscheme', heq, hlower, hread⟩ := normalizeOrigin_eq_some hnormalized
  have hparts := dropInfix?_separator hscheme authority
  rw [heq, dropInfix?_separator hscheme'] at hparts
  cases hparts
  exact ⟨hlower, Option.isSome_iff_exists.1 hread⟩

-- == the list

/-- A list of one origin has the other. -/
def listedAlone (a b : Text) : Bool :=
  match AllowedOrigins.new [a] with
  | .ok allowed => allowed.contains b
  | .error _ => false

/-- Two texts stand for one origin. -/
def Equivalent (a b : Text) : Prop := ∃ o, readOrigin a = some o ∧ readOrigin b = some o

/-- Two texts stand for one origin and have its port in two ways. -/
def PortSpelledTwice (a b : Text) : Prop :=
  ∃ scheme authority authority', originParts a = some (scheme, authority)
    ∧ originParts b = some (scheme, authority')
    ∧ readAuthority scheme authority = readAuthority scheme authority'
    ∧ portOf authority ≠ portOf authority'

theorem listedAlone_iff (a b : Text) :
    listedAlone a b = true ↔ ∃ parts, originParts a = some parts ∧ originParts b = some parts := by
  have hcontains : listedAlone a b = true
      ↔ ∃ n, normalizeOrigin a = some n ∧ normalizeOrigin b = some n := by
    simp only [listedAlone, AllowedOrigins.new, List.mapM_cons, List.mapM_nil]
    cases ha : normalizeOrigin a with
    | none => simp [bind, Except.bind, Except.map]
    | some n =>
        cases hb : normalizeOrigin b with
        | none =>
            simp [bind, Except.bind, Except.map, pure, Except.pure, AllowedOrigins.contains, hb]
        | some n' =>
            simp [bind, Except.bind, Except.map, pure, Except.pure, AllowedOrigins.contains, hb,
              eq_comm]
  rw [hcontains]
  constructor
  · rintro ⟨n, ha, hb⟩
    obtain ⟨scheme, authority, hscheme, rfl, -, -⟩ := normalizeOrigin_eq_some ha
    exact ⟨(scheme, authority), originParts_eq_some.2 ⟨hscheme, ha⟩,
      originParts_eq_some.2 ⟨hscheme, hb⟩⟩
  · rintro ⟨⟨scheme, authority⟩, ha, hb⟩
    exact ⟨_, (originParts_eq_some.1 ha).2, (originParts_eq_some.1 hb).2⟩

/-- Equivalence, unpacked. -/
theorem equivalent_iff (a b : Text) :
    Equivalent a b ↔ ∃ scheme authority authority', originParts a = some (scheme, authority)
      ∧ originParts b = some (scheme, authority')
      ∧ readAuthority scheme authority = readAuthority scheme authority' := by
  constructor
  · rintro ⟨o, ha, hb⟩
    obtain ⟨⟨scheme, authority⟩, ha, hread⟩ := Option.bind_eq_some_iff.1 ha
    obtain ⟨⟨scheme', authority'⟩, hb, hread'⟩ := Option.bind_eq_some_iff.1 hb
    dsimp only at hread hread'
    have hscheme := (readAuthority_eq_some.1 hread).2.2.2.1
    have hscheme' := (readAuthority_eq_some.1 hread').2.2.2.1
    obtain rfl : scheme = scheme' := hscheme.symm.trans hscheme'
    exact ⟨scheme, authority, authority', ha, hb, hread.trans hread'.symm⟩
  · rintro ⟨scheme, authority, authority', ha, hb, hsame⟩
    obtain ⟨-, o, hread⟩ := readAuthority_originParts ha
    refine ⟨o, ?_, ?_⟩
    · rw [readOrigin, ha]
      exact hread
    · rw [readOrigin, hb]
      exact hsame.symm.trans hread

/-- Two authorities with the same host and the same text of the port. -/
theorem authority_ext {scheme authority authority' : Text} {o : Origin}
    (h : readAuthority scheme authority = some o) (h' : readAuthority scheme authority' = some o)
    (hport : portOf authority = portOf authority') : authority = authority' := by
  rw [authority_eq (readAuthority_eq_some.1 h).2.1, authority_eq (readAuthority_eq_some.1 h').2.1,
    hport]

/-- A list finds an origin unless its port is written in another way. -/
theorem listedAlone_iff_equivalent (a b : Text) :
    (listedAlone a b = true ↔ Equivalent a b) ↔ ¬ PortSpelledTwice a b := by
  rw [listedAlone_iff, equivalent_iff]
  constructor
  · rintro h ⟨scheme, authority, authority', ha, hb, hsame, hport⟩
    obtain ⟨parts, ha', hb'⟩ := h.2 ⟨scheme, authority, authority', ha, hb, hsame⟩
    rw [ha] at ha'
    rw [hb] at hb'
    cases ha'
    cases hb'
    exact hport rfl
  · intro h
    constructor
    · rintro ⟨⟨scheme, authority⟩, ha, hb⟩
      exact ⟨scheme, authority, authority, ha, hb, rfl⟩
    · rintro ⟨scheme, authority, authority', ha, hb, hsame⟩
      obtain ⟨-, o, hread⟩ := readAuthority_originParts ha
      have hport : portOf authority = portOf authority' := by
        by_contra hport
        exact h ⟨scheme, authority, authority', ha, hb, hsame, hport⟩
      obtain rfl := authority_ext hread (hsame ▸ hread) hport
      exact ⟨(scheme, authority), ha, hb⟩

-- == the host

/-- An authority without the default port of the scheme. -/
def stripped (scheme authority : Text) : Text :=
  (authority.dropSuffix? (':' :: defaultPortText scheme)).getD authority

/-- The port that is left of one after the default one is left out. -/
def shortPort (scheme : Text) (port : Option Text) : Option Text :=
  port.filter (· ≠ defaultPortText scheme)

/-- The default port is read as the port. -/
theorem portOf_eq_default {scheme authority : Text} :
    portOf authority = some (defaultPortText scheme) ↔
      ∃ before, authority = before ++ ':' :: defaultPortText scheme := by
  have hcolon : ':' ∉ defaultPortText scheme := by
    rw [defaultPortText]
    split <;> decide
  have hbracket : (defaultPortText scheme).getLast? ≠ some ']' := by
    rw [defaultPortText]
    split <;> decide
  constructor
  · intro h
    rw [portOf] at h
    split at h
    · rename_i before port hsplit
      split at h
      · cases h
      · cases h
        exact ⟨before, (rsplitOnce_eq_some.1 hsplit).1⟩
    · cases h
  · rintro ⟨before, rfl⟩
    rw [portOf, rsplitOnce_append before hcolon]
    dsimp only
    rw [if_neg hbracket]

theorem stripped_default (scheme before : Text) :
    stripped scheme (before ++ ':' :: defaultPortText scheme) = before := by
  have h : (before ++ ':' :: defaultPortText scheme).dropSuffix? (':' :: defaultPortText scheme)
      = some before := List.dropSuffix?_eq_some_iff.2 ⟨_, rfl, by simp⟩
  rw [stripped, h, Option.getD_some]

theorem stripped_of_not_default {scheme authority : Text}
    (h : portOf authority ≠ some (defaultPortText scheme)) :
    stripped scheme authority = authority := by
  rw [stripped]
  cases hdrop : authority.dropSuffix? (':' :: defaultPortText scheme) with
  | none => rfl
  | some before =>
      obtain ⟨s, heq, hs⟩ := List.dropSuffix?_eq_some_iff.1 hdrop
      rw [eq_of_beq hs] at heq
      exact absurd (portOf_eq_default.2 ⟨before, heq⟩) h

/-- Of an authority that can be read, the host and a port other than the
default one are left. -/
theorem stripped_eq {scheme authority host : Text} (h : hostOf authority = some host) :
    stripped scheme authority = host ++ portSuffix (shortPort scheme (portOf authority)) := by
  have heq := authority_eq h
  by_cases hdefault : portOf authority = some (defaultPortText scheme)
  · rw [hdefault] at heq ⊢
    rw [heq]
    simp [portSuffix, shortPort, stripped_default, Option.filter]
  · rw [stripped_of_not_default hdefault]
    cases hport : portOf authority with
    | none => rwa [hport] at heq
    | some port =>
        rw [hport] at heq hdefault
        have hne : port ≠ defaultPortText scheme := fun h => hdefault (congrArg some h)
        simpa [shortPort, Option.filter, hne] using heq

/-- Two authorities stand for one origin, with ports that differ by more
than a default port written out. -/
def SpelledApart (scheme authority host : Text) : Prop :=
  readAuthority scheme authority = readAuthority scheme host
    ∧ shortPort scheme (portOf authority) ≠ shortPort scheme (portOf host)

/-- The longer authority has a default port after the port of the shorter. -/
def DefaultAfterPort (scheme shorter longer : Text) : Prop :=
  longer = shorter ++ ':' :: defaultPortText scheme
    ∧ ∃ port, portOf shorter = some port ∧ port ≠ defaultPortText scheme

/-- The request's origin is its host. -/
def SameAsHost (origin : Text) (host : Option Text) : Prop :=
  ∃ o h, readOrigin origin = some o ∧ host = some h
    ∧ readAuthority o.scheme (toAsciiLowercase h) = some o

/-- The host and the origin are texts that the comparison gets wrong. -/
def HostMisread (origin : Text) (host : Option Text) : Prop :=
  ∃ scheme authority h, originParts origin = some (scheme, authority) ∧ host = some h
    ∧ (SpelledApart scheme authority (toAsciiLowercase h)
      ∨ DefaultAfterPort scheme authority (toAsciiLowercase h)
      ∨ DefaultAfterPort scheme (toAsciiLowercase h) authority)

/-- A default port after a port belongs to another origin, and is left out
all the same. -/
theorem DefaultAfterPort.misread {scheme shorter longer : Text}
    (h : DefaultAfterPort scheme shorter longer) :
    stripped scheme longer = stripped scheme shorter
      ∧ ∀ o, readAuthority scheme shorter = some o → readAuthority scheme longer ≠ some o := by
  obtain ⟨rfl, port, hport, hne⟩ := h
  refine ⟨?_, ?_⟩
  · rw [stripped_default, stripped_of_not_default]
    rw [hport]
    exact fun h => hne (Option.some.inj h)
  · intro o hshort hlong
    have hlonger := authority_eq (readAuthority_eq_some.1 hlong).2.1
    have hshorter := authority_eq (readAuthority_eq_some.1 hshort).2.1
    rw [portOf_eq_default.2 ⟨shorter, rfl⟩] at hlonger
    rw [hport] at hshorter
    have hhost : shorter = o.host := List.append_cancel_right hlonger
    have hlength := congrArg List.length hshorter
    rw [hhost] at hlength
    simp [portSuffix] at hlength

/-- A host with the default port, whose number that is. -/
theorem readAuthority_default {scheme host : Text} (hvalid : host.any (· ∈ notInAuthority) = false)
    (hempty : host ≠ []) :
    readAuthority scheme (host ++ ':' :: defaultPortText scheme)
      = some ⟨scheme, host, defaultPort scheme⟩ := by
  have hport : portOf (host ++ ':' :: defaultPortText scheme) = some (defaultPortText scheme) :=
    portOf_eq_default.2 ⟨host, rfl⟩
  refine readAuthority_eq_some.2 ⟨?_, ?_, hempty, rfl, ?_⟩
  · rw [List.any_append, hvalid, defaultPortText]
    split
    · rfl
    · rfl
  · have htext : defaultPortText scheme = ['4', '4', '3']
        ∨ defaultPortText scheme = ['8', '0'] := by
      rw [defaultPortText]
      split
      · exact .inl rfl
      · exact .inr rfl
    obtain htext | htext := htext
    · rw [hostOf, htext, rsplitOnce_append host (by decide)]
      rfl
    · rw [hostOf, htext, rsplitOnce_append host (by decide)]
      rfl
  · rw [hport, effectivePort, number_defaultPortText]

/-- A host without a port, which is the default one. -/
theorem readAuthority_host {scheme host : Text} (hvalid : host.any (· ∈ notInAuthority) = false)
    (hempty : host ≠ []) (hport : portOf host = none) :
    readAuthority scheme host = some ⟨scheme, host, defaultPort scheme⟩ := by
  refine readAuthority_eq_some.2 ⟨hvalid, hostOf_of_portOf_none hport, hempty, rfl, ?_⟩
  rw [hport]
  rfl

/-- The shorter authority has no port, if it has none before a default one. -/
theorem portOf_shorter {scheme shorter : Text}
    (hnot : ¬ DefaultAfterPort scheme shorter (shorter ++ ':' :: defaultPortText scheme))
    (hdefault : portOf shorter ≠ some (defaultPortText scheme)) : portOf shorter = none := by
  cases hport : portOf shorter with
  | none => rfl
  | some port =>
      rw [hport] at hdefault
      exact absurd ⟨rfl, port, hport, fun h => hdefault (congrArg some h)⟩ hnot

theorem portSuffix_injective : Function.Injective portSuffix := by
  intro port port' h
  cases port <;> cases port' <;> simp_all [portSuffix]

/-- Without the default port, authorities are equal as texts when they stand
for one origin, except for those the comparison gets wrong. -/
theorem stripped_eq_iff {scheme authority : Text} {o : Origin}
    (hread : readAuthority scheme authority = some o) (host : Text) :
    (stripped scheme host = stripped scheme authority ↔ readAuthority scheme host = some o) ↔
      ¬ (SpelledApart scheme authority host ∨ DefaultAfterPort scheme authority host
        ∨ DefaultAfterPort scheme host authority) := by
  obtain ⟨hvalid, hhost, hempty, hscheme, hport⟩ := readAuthority_eq_some.1 hread
  constructor
  · rintro h (⟨hsame, hne⟩ | hafter | hafter)
    · have hread' := hsame.symm.trans hread
      have hstripped := h.2 hread'
      rw [stripped_eq hhost, stripped_eq (readAuthority_eq_some.1 hread').2.1] at hstripped
      exact hne (portSuffix_injective (List.append_cancel_left hstripped)).symm
    · exact hafter.misread.2 o hread (h.1 hafter.misread.1)
    · exact hafter.misread.2 o (h.1 hafter.misread.1.symm) hread
  · intro hnot
    constructor
    · intro hstripped
      by_cases hauthority : portOf authority = some (defaultPortText scheme)
      · obtain ⟨before, rfl⟩ := portOf_eq_default.1 hauthority
        rw [stripped_default] at hstripped
        by_cases hhost' : portOf host = some (defaultPortText scheme)
        · obtain ⟨before', rfl⟩ := portOf_eq_default.1 hhost'
          rw [stripped_default] at hstripped
          rw [hstripped]
          exact hread
        · -- the origin has the default port written out, and the host has none
          rw [stripped_of_not_default hhost'] at hstripped
          subst hstripped
          have hlonger := authority_eq hhost
          rw [hauthority] at hlonger
          have hself := List.append_cancel_right hlonger
          rw [List.any_append, Bool.or_eq_false_iff] at hvalid
          rw [← hself] at hempty
          rw [readAuthority_host hvalid.1 hempty
            (portOf_shorter (fun h => hnot (.inr (.inr h))) hhost'), ← hread,
            readAuthority_default hvalid.1 hempty]
      · rw [stripped_of_not_default hauthority] at hstripped
        by_cases hhost' : portOf host = some (defaultPortText scheme)
        · obtain ⟨before, rfl⟩ := portOf_eq_default.1 hhost'
          rw [stripped_default] at hstripped
          subst hstripped
          have hnone := portOf_shorter (fun h => hnot (.inr (.inl h))) hauthority
          have hself := authority_eq hhost
          rw [hnone, portSuffix, List.append_nil] at hself
          rw [← hself] at hempty
          rw [readAuthority_default hvalid hempty, ← hread, readAuthority_host hvalid hempty hnone]
        · rw [stripped_of_not_default hhost'] at hstripped
          rw [hstripped]
          exact hread
    · intro hread'
      by_contra hstripped
      refine hnot (.inl ⟨hread.trans hread'.symm, fun hshort => hstripped ?_⟩)
      rw [stripped_eq hhost, stripped_eq (readAuthority_eq_some.1 hread').2.1, hshort]

theorem requestAllowed_iff {origin : Text} {host : Option Text} {allowed : AllowedOrigins}
    (hlisted : allowed.contains origin = false) :
    requestAllowed (some origin) none host allowed = true ↔
      ∃ scheme authority h, originParts origin = some (scheme, authority) ∧ host = some h
        ∧ stripped scheme (toAsciiLowercase h) = stripped scheme authority := by
  simp only [requestAllowed, Option.any_some, hlisted, Bool.false_eq_true, if_false]
  cases hnormalized : normalizeOrigin origin with
  | none => simp [originParts, hnormalized]
  | some normalized =>
      obtain ⟨scheme, authority, hscheme, rfl, hlower, -⟩ := normalizeOrigin_eq_some hnormalized
      have hparts := originParts_eq_some.2 ⟨hscheme, hnormalized⟩
      dsimp only
      rw [dropInfix?_separator hscheme, hparts]
      dsimp only
      cases host with
      | none => simp
      | some h =>
          have hwithout (text : Text) : withoutDefaultPort scheme text
              = stripped scheme (toAsciiLowercase text) := rfl
          simp only [Option.any_some, decide_eq_true_eq, hwithout, hlower, Option.some.injEq,
            Prod.mk.injEq]
          constructor
          · intro heq
            exact ⟨scheme, authority, h, ⟨rfl, rfl⟩, rfl, heq⟩
          · rintro ⟨scheme', authority', h', ⟨rfl, rfl⟩, rfl, heq⟩
            exact heq

/-- The host check is right except for the hosts it misreads. -/
theorem requestAllowed_iff_sameAsHost {origin : Text} {allowed : AllowedOrigins}
    (host : Option Text) (hlisted : allowed.contains origin = false) :
    (requestAllowed (some origin) none host allowed = true ↔ SameAsHost origin host)
      ↔ ¬ HostMisread origin host := by
  rw [requestAllowed_iff hlisted]
  cases hparts : originParts origin with
  | none => simp [SameAsHost, HostMisread, readOrigin, hparts]
  | some parts =>
      obtain ⟨scheme, authority⟩ := parts
      cases host with
      | none => simp [SameAsHost, HostMisread]
      | some h =>
          obtain ⟨-, o, hread⟩ := readAuthority_originParts hparts
          have hscheme := (readAuthority_eq_some.1 hread).2.2.2.1
          have hsame : SameAsHost origin (some h)
              ↔ readAuthority scheme (toAsciiLowercase h) = some o := by
            have horigin : readOrigin origin = some o := by
              rw [readOrigin, hparts]
              exact hread
            constructor
            · rintro ⟨o', h', ho', hh', hreads⟩
              rw [horigin] at ho'
              cases ho'
              cases hh'
              rwa [hscheme] at hreads
            · intro hreads
              exact ⟨o, h, horigin, rfl, by rwa [hscheme]⟩
          rw [hsame]
          simpa [HostMisread, hparts] using stripped_eq_iff hread (toAsciiLowercase h)

/-- A list of one origin has exactly the texts that stand for it, except
those with its port written in another way; and a request whose origin is
not listed passes exactly when its origin is its host, unless the ports of
the two have different digits for the same number, or one of the two has a
default port after what the other has for its port. -/
theorem origins_compared_iff (a b origin : Text) (host : Option Text) (allowed : AllowedOrigins)
    (hlisted : allowed.contains origin = false) :
    ((listedAlone a b = true ↔ Equivalent a b) ↔ ¬ PortSpelledTwice a b)
      ∧ ((requestAllowed (some origin) none host allowed = true ↔ SameAsHost origin host)
        ↔ ¬ HostMisread origin host) :=
  ⟨listedAlone_iff_equivalent a b, requestAllowed_iff_sameAsHost host hlisted⟩

/-- With the default port written out or not, and with capitals. -/
theorem origins_compared_dashboard :
    let dash := "http://Dash.Example".toList
    ((listedAlone dash "http://dash.example/".toList = true
        ↔ Equivalent dash "http://dash.example/".toList)
      ↔ ¬ PortSpelledTwice dash "http://dash.example/".toList)
      ∧ ((requestAllowed (some dash) none (some "dash.example:80".toList) ⟨[]⟩ = true
          ↔ SameAsHost dash (some "dash.example:80".toList))
        ↔ ¬ HostMisread dash (some "dash.example:80".toList)) :=
  origins_compared_iff _ _ _ _ ⟨[]⟩ (by decide)

/-- A listed origin with the default port written out lets no request of
that origin pass, and a host with a zero before its port is taken for
another. -/
theorem spelled_port_refused :
    let listed := "https://ops.example:443".toList
    let sent := "https://ops.example".toList
    let zero := some "dash.example:08080".toList
    (listedAlone listed sent = false ∧ Equivalent listed sent)
      ∧ requestAllowed (some "http://dash.example:8080".toList) none zero ⟨[]⟩ = false
      ∧ SameAsHost "http://dash.example:8080".toList zero := by
  refine ⟨⟨by decide, ⟨https, "ops.example".toList, 443⟩, by decide, by decide⟩, by decide, ?_⟩
  exact ⟨⟨http, "dash.example".toList, 8080⟩, _, by decide, rfl, by decide⟩

end Origins

end Hammerwork
