/-
What payload templates accept, and what they render.

A string is read from left to right: text up to the first opening braces, a
placeholder up to the first closing ones after them, and so on (`Reads`). The
scanner finds exactly this reading, or fails as braces are not closed
(`splitRest_iff`); and it is the one reading that both parsing and rendering
go by. So a value is accepted exactly if it is `WellFormed`, and rendering
only fills its placeholders in (`Fills`): what comes from the event is
inserted, and never read again.
-/
import Hammerwork.PayloadTemplate

namespace Hammerwork

/-- What holds of an array or an object when it holds of all it consists of
holds of every value. -/
theorem Json.induction {motive : Json → Prop} (null : motive .null)
    (bool : ∀ b, motive (.bool b)) (number : ∀ text, motive (.number text))
    (string : ∀ text, motive (.string text))
    (array : ∀ items, (∀ item ∈ items, motive item) → motive (.array items))
    (object : ∀ members, (∀ member ∈ members, motive member.2) → motive (.object members))
    (value : Json) : motive value := by
  refine @Json.rec motive (fun items => ∀ item ∈ items, motive item)
    (fun members => ∀ member ∈ members, motive member.2) (fun member => motive member.2)
    null bool number string array object ?_ ?_ ?_ ?_ ?_ value
  · simp
  · intro item items hitem hitems
    simpa using ⟨hitem, hitems⟩
  · simp
  · intro member members hmember hmembers
    simpa using ⟨hmember, by simpa using hmembers⟩
  · intro key value hvalue
    exact hvalue

namespace PayloadTemplate

-- == readings

/-- The first two `c` in a row are between `before` and `after`. -/
def FirstPair (c : Char) (text before after : List Char) : Prop :=
  text = before ++ c :: c :: after ∧ ¬ [c, c] <:+: before ++ [c]

/-- How a template string is read. -/
inductive Reads : List Char → List TemplatePart → Prop where
  | text {text : List Char} : ¬ [openBrace, openBrace] <:+: text → Reads text (textPart text)
  | placeholder {text before after inner rest : List Char} {parts : List TemplatePart} :
      FirstPair openBrace text before after → FirstPair closeBrace after inner rest →
      Reads rest parts →
      Reads text (textPart before ++ .placeholder (parsePath inner) :: parts)

/-- Some opening braces of a template string are not closed. -/
inductive Unclosed : List Char → Prop where
  | here {text before after : List Char} : FirstPair openBrace text before after →
      ¬ [closeBrace, closeBrace] <:+: after → Unclosed text
  | later {text before after inner rest : List Char} : FirstPair openBrace text before after →
      FirstPair closeBrace after inner rest → Unclosed rest → Unclosed text

/-- The paths a template may name. -/
inductive KnownPath : List String → Prop where
  | event : KnownPath ["event"]
  | field {field : String} : field ∈ plainFields → KnownPath ["event", field]
  | error : KnownPath ["event", "error"]
  | errorField {field : String} : field ∈ errorFields → KnownPath ["event", "error", field]
  | metadata : KnownPath ["event", "metadata"]
  | metadataKey {key : String} : key ≠ "" → KnownPath ["event", "metadata", key]
  | payload {keys : List String} : "" ∉ keys → KnownPath ("event" :: "payload" :: keys)

mutual

/-- Every placeholder names a known path, all opening braces are closed, and
no object key contains any. -/
def WellFormed : Json → Prop
  | .string text => ¬ Unclosed text.toList ∧
      ∀ parts, Reads text.toList parts → ∀ path, .placeholder path ∈ parts → KnownPath path
  | .array items => WellFormedItems items
  | .object members => WellFormedMembers members
  | .null => True
  | .bool _ => True
  | .number _ => True

def WellFormedItems : List Json → Prop
  | [] => True
  | item :: items => WellFormed item ∧ WellFormedItems items

def WellFormedMembers : List (String × Json) → Prop
  | [] => True
  | (key, value) :: members =>
      (¬ [openBrace, openBrace] <:+: key.toList) ∧ WellFormed value ∧ WellFormedMembers members

end

-- == scanner

variable {c : Char} {text before after : List Char}

theorem not_infix_short (c : Char) (h : text.length ≤ 1) : ¬ [c, c] <:+: text := by
  intro hpair
  have hlength := hpair.length_le
  simp only [List.length_cons, List.length_nil] at hlength
  omega

theorem infix_pair_cons (a b : Char) (rest : List Char) :
    [c, c] <:+: a :: b :: rest ↔ (a = c ∧ b = c) ∨ [c, c] <:+: b :: rest := by
  rw [List.infix_cons_iff, List.cons_prefix_cons, List.cons_prefix_cons]
  simp [eq_comm]

/-- The scanner finds the first pair. -/
theorem findPair_some (h : findPair c text = some (before, after)) :
    FirstPair c text before after := by
  induction text generalizing before with
  | nil => cases h
  | cons a text ih =>
      cases text with
      | nil => cases h
      | cons b rest =>
          rw [findPair] at h
          split at h
          case isTrue hpair =>
            cases h
            obtain ⟨rfl, rfl⟩ := hpair
            exact ⟨rfl, not_infix_short _ (by simp)⟩
          case isFalse hpair =>
            obtain ⟨found, hfound, heq⟩ := Option.map_eq_some_iff.1 h
            cases heq
            obtain ⟨htext, hfirst⟩ := ih hfound
            refine ⟨by rw [htext, List.cons_append], ?_⟩
            -- the character after `a` is `b`, whether or not the pair starts there
            cases hbefore : found.1 with
            | nil =>
                rw [hbefore] at htext
                obtain ⟨hb, -⟩ := List.cons.inj htext
                rw [List.cons_append, List.nil_append, infix_pair_cons, not_or]
                exact ⟨fun hac => hpair ⟨hac.1, hb⟩, not_infix_short _ (by simp)⟩
            | cons b' before =>
                rw [hbefore] at htext hfirst
                obtain ⟨hb, -⟩ := List.cons.inj htext
                rw [List.cons_append, List.cons_append, infix_pair_cons, not_or, ← hb]
                exact ⟨hpair, hb ▸ hfirst⟩

theorem findPair_none (h : findPair c text = none) : ¬ [c, c] <:+: text := by
  induction text with
  | nil => exact not_infix_short _ (by simp)
  | cons a text ih =>
      cases text with
      | nil => exact not_infix_short _ (by simp)
      | cons b rest =>
          rw [findPair] at h
          split at h
          case isTrue => cases h
          case isFalse hpair =>
            rw [infix_pair_cons, not_or]
            exact ⟨hpair, ih (by simpa using h)⟩

/-- No pair begins after a first one does. -/
theorem not_later {between after' : List Char} (h : ¬ [c, c] <:+: before ++ between ++ [c])
    (heq : c :: c :: after = between ++ c :: c :: after') : between = [] := by
  cases between with
  | nil => rfl
  | cons a between =>
      obtain ⟨rfl, htail⟩ := List.cons.inj heq
      refine absurd ?_ h
      cases between with
      | nil => exact ⟨before, [], by simp⟩
      | cons b between =>
          obtain ⟨rfl, -⟩ := List.cons.inj htail
          exact ⟨before, between ++ [c], by simp⟩

/-- There is only one first pair. -/
theorem FirstPair.unique {before' after' : List Char} (h : FirstPair c text before after)
    (h' : FirstPair c text before' after') : before = before' ∧ after = after' := by
  obtain ⟨htext, hfirst⟩ := h
  obtain ⟨htext', hfirst'⟩ := h'
  rcases List.append_eq_append_iff.1 (htext.symm.trans htext') with
    ⟨between, hbefore, heq⟩ | ⟨between, hbefore, heq⟩
  · have hnone := not_later (hbefore ▸ hfirst') heq
    rw [hnone] at hbefore heq
    exact ⟨by simpa using hbefore.symm, by simpa using heq⟩
  · have hnone := not_later (hbefore ▸ hfirst) heq
    rw [hnone] at hbefore heq
    exact ⟨by simpa using hbefore, by simpa using heq.symm⟩

theorem FirstPair.occurs (h : FirstPair c text before after) : [c, c] <:+: text :=
  ⟨before, after, by rw [h.1]; simp⟩

theorem splitRest_text (hopen : findPair openBrace text = none) :
    splitRest text = some (textPart text) := by
  rw [splitRest]
  split
  case h_1 => rfl
  case h_2 hfound => cases hopen.symm.trans hfound

theorem splitRest_unclosed (hopen : findPair openBrace text = some (before, after))
    (hclose : findPair closeBrace after = none) : splitRest text = none := by
  rw [splitRest]
  split
  case h_1 hfound => cases hopen.symm.trans hfound
  case h_2 hfound =>
    cases hopen.symm.trans hfound
    split
    case h_1 => rfl
    case h_2 hfound => cases hclose.symm.trans hfound

theorem splitRest_placeholder {inner rest : List Char}
    (hopen : findPair openBrace text = some (before, after))
    (hclose : findPair closeBrace after = some (inner, rest)) :
    splitRest text = (splitRest rest).map fun parts =>
      textPart before ++ .placeholder (parsePath inner) :: parts := by
  rw [splitRest]
  split
  case h_1 hfound => cases hopen.symm.trans hfound
  case h_2 hfound =>
    cases hopen.symm.trans hfound
    split
    case h_1 hfound => cases hclose.symm.trans hfound
    case h_2 hfound =>
      cases hclose.symm.trans hfound
      rfl

/-- A string that begins with text and a placeholder is read so. -/
theorem reads_placeholder {inner rest : List Char} {parts : List TemplatePart}
    (hopen : FirstPair openBrace text before after)
    (hclose : FirstPair closeBrace after inner rest) :
    Reads text parts ↔ ∃ later, Reads rest later ∧
      textPart before ++ .placeholder (parsePath inner) :: later = parts := by
  constructor
  · intro h
    cases h with
    | text hnone => exact absurd hopen.occurs hnone
    | placeholder hopen' hclose' hrest =>
        obtain ⟨rfl, rfl⟩ := hopen.unique hopen'
        obtain ⟨rfl, rfl⟩ := hclose.unique hclose'
        exact ⟨_, hrest, rfl⟩
  · intro h
    obtain ⟨later, hrest, heq⟩ := h
    exact heq ▸ .placeholder hopen hclose hrest

theorem unclosed_placeholder {inner rest : List Char}
    (hopen : FirstPair openBrace text before after)
    (hclose : FirstPair closeBrace after inner rest) : Unclosed text ↔ Unclosed rest := by
  refine ⟨fun h => ?_, .later hopen hclose⟩
  cases h with
  | here hopen' hnone =>
      obtain ⟨rfl, rfl⟩ := hopen.unique hopen'
      exact absurd hclose.occurs hnone
  | later hopen' hclose' hrest =>
      obtain ⟨rfl, rfl⟩ := hopen.unique hopen'
      obtain ⟨rfl, rfl⟩ := hclose.unique hclose'
      exact hrest

/-- The scanner reads a string as it should be read, and fails if some braces
are not closed. -/
theorem splitRest_iff (text : List Char) :
    (∀ parts, splitRest text = some parts ↔ Reads text parts) ∧
      (splitRest text = none ↔ Unclosed text) := by
  induction text using splitRest.induct with
  | case1 text hopen =>
      have hnone := findPair_none hopen
      rw [splitRest_text hopen]
      refine ⟨fun parts => ⟨fun h => ?_, fun h => ?_⟩, nofun, fun h => ?_⟩
      · exact Option.some.inj h ▸ .text hnone
      · cases h with
        | text => rfl
        | placeholder hopen' => exact absurd hopen'.occurs hnone
      · cases h with
        | here hopen' => exact absurd hopen'.occurs hnone
        | later hopen' => exact absurd hopen'.occurs hnone
  | case2 text before after hopen hclose =>
      have hfirst := findPair_some hopen
      rw [splitRest_unclosed hopen hclose]
      refine ⟨fun parts => ⟨nofun, fun h => ?_⟩, fun _ => .here hfirst (findPair_none hclose),
        fun _ => rfl⟩
      cases h with
      | text hnone => exact absurd hfirst.occurs hnone
      | placeholder hopen' hclose' =>
          obtain ⟨rfl, rfl⟩ := hfirst.unique hopen'
          exact absurd hclose'.occurs (findPair_none hclose)
  | case3 text before after hopen inner rest hclose ih =>
      obtain ⟨hreads, hunclosed⟩ := ih
      have hopen' := findPair_some hopen
      have hclose' := findPair_some hclose
      rw [splitRest_placeholder hopen hclose, unclosed_placeholder hopen' hclose']
      refine ⟨fun parts => ?_, by simpa using hunclosed⟩
      rw [reads_placeholder hopen' hclose', Option.map_eq_some_iff]
      simp only [hreads]

/-- Splitting a string succeeds with its reading. -/
theorem split_iff {text : String} {parts : List TemplatePart} :
    split text = .ok parts ↔ Reads text.toList parts := by
  rw [← (splitRest_iff text.toList).1, split]
  cases splitRest text.toList with
  | none => simp
  | some parts' => simp

-- == parsing

theorem plainFields_nonempty {field : String} (h : field ∈ plainFields) : field ≠ "" := by
  intro hempty
  subst hempty
  exact absurd h (by decide)

theorem errorFields_nonempty {field : String} (h : field ∈ errorFields) : field ≠ "" := by
  intro hempty
  subst hempty
  exact absurd h (by decide)

theorem any_empty_iff {path : List String} : path.any (·.isEmpty) = true ↔ "" ∈ path := by
  simp [List.any_eq_true]

theorem validatePath_iff {path : List String} : validatePath path = .ok () ↔ KnownPath path := by
  constructor
  · intro h
    unfold validatePath at h
    split at h
    case isTrue => cases h
    case isFalse hsegments =>
      split at h
      · exact .event
      · next field rest =>
          split at h
          case isTrue hplain =>
            obtain ⟨hfield, rfl⟩ := hplain
            exact .field hfield
          case isFalse =>
            split at h
            case isTrue herror =>
              subst herror
              split at h
              · exact .error
              · split at h
                case isTrue hname => exact .errorField hname
                case isFalse => cases h
              · cases h
            case isFalse =>
              split at h
              case isTrue hmetadata =>
                obtain ⟨rfl, hrest⟩ := hmetadata
                match rest, hrest with
                | [], _ => exact .metadata
                | [key], _ =>
                    refine .metadataKey fun hempty => any_empty_iff.not.1 hsegments ?_
                    simp [hempty]
              case isFalse =>
                split at h
                case isTrue hpayload =>
                  subst hpayload
                  refine .payload fun hempty => any_empty_iff.not.1 hsegments ?_
                  simp [hempty]
                case isFalse => cases h
      · cases h
  · intro h
    cases h with
    | event => decide
    | field hfield => simp [validatePath, hfield, plainFields_nonempty hfield]
    | error => decide
    | errorField hfield => simp [validatePath, hfield, errorFields_nonempty hfield]
    | metadata => decide
    | metadataKey hkey => simp [validatePath, hkey]
    | @payload keys hkeys =>
        have hsegments : "" ∉ "event" :: "payload" :: keys := by simpa using hkeys
        have hplain : "payload" ∉ plainFields := by decide
        have hmetadata : ¬ ("payload" = "metadata" ∧ keys.length ≤ 1) := by simp
        unfold validatePath
        rw [if_neg (any_empty_iff.not.2 hsegments)]
        split
        · rfl
        · next hpath =>
            cases hpath
            rw [if_neg (fun h => hplain h.1), if_neg (by decide), if_neg hmetadata, if_pos rfl]
        · next hother => exact absurd rfl (hother "payload" keys)

/-- Two validations succeed if both do. -/
theorem andThen_iff {first second : Except TemplateError Unit} :
    (do first; second) = .ok () ↔ first = .ok () ∧ second = .ok () := by
  cases first with
  | ok => simp [bind, Except.bind]
  | error e => simp [bind, Except.bind]

theorem validateParts_iff {parts : List TemplatePart} :
    validateParts parts = .ok () ↔ ∀ path, .placeholder path ∈ parts → KnownPath path := by
  induction parts with
  | nil => simp [validateParts]
  | cons part parts ih =>
      cases part with
      | text text => simp [validateParts, ih]
      | placeholder path =>
          rw [validateParts, andThen_iff, validatePath_iff, ih]
          simp

mutual

/-- Validation accepts exactly the well-formed values. -/
theorem validateValue_iff (value : Json) : validateValue value = .ok () ↔ WellFormed value := by
  cases value with
  | string text =>
      obtain ⟨hreads, hunclosed⟩ := splitRest_iff text.toList
      rw [validateValue, WellFormed, split]
      cases hsplit : splitRest text.toList with
      | none =>
          have hopen := hunclosed.1 hsplit
          simp [bind, Except.bind, hopen]
      | some parts =>
          have hread := (hreads parts).1 hsplit
          have hclosed : ¬ Unclosed text.toList := by
            rw [← hunclosed, hsplit]
            simp
          have hunique : ∀ parts', Reads text.toList parts' → parts' = parts := by
            intro parts' h
            exact Option.some.inj (((hreads parts').2 h).symm.trans hsplit)
          simp only [bind, Except.bind, validateParts_iff]
          refine ⟨fun h => ⟨hclosed, fun parts' h' => ?_⟩, fun h => h.2 parts hread⟩
          rw [hunique parts' h']
          exact h
  | array items =>
      rw [validateValue, WellFormed]
      exact validateItems_iff items
  | object members =>
      rw [validateValue, WellFormed]
      exact validateMembers_iff members
  | null => simp [validateValue, WellFormed]
  | bool b => simp [validateValue, WellFormed]
  | number text => simp [validateValue, WellFormed]

theorem validateItems_iff (items : List Json) :
    validateItems items = .ok () ↔ WellFormedItems items := by
  cases items with
  | nil => simp [validateItems, WellFormedItems]
  | cons item items =>
      rw [validateItems, andThen_iff, WellFormedItems, validateValue_iff item,
        validateItems_iff items]

theorem validateMembers_iff (members : List (String × Json)) :
    validateMembers members = .ok () ↔ WellFormedMembers members := by
  cases members with
  | nil => simp [validateMembers, WellFormedMembers]
  | cons member members =>
      obtain ⟨key, value⟩ := member
      rw [validateMembers, WellFormedMembers]
      split
      case isTrue hkey =>
        have hpair : [openBrace, openBrace] <:+: key.toList := by
          simpa [contains, openBrace] using hkey
        simp [hpair]
      case isFalse hkey =>
        have hpair : ¬ [openBrace, openBrace] <:+: key.toList := by
          simpa [contains, openBrace] using hkey
        rw [andThen_iff, validateValue_iff value, validateMembers_iff members]
        simp [hpair]

end

-- == rendering

variable (serde : Serde)

/-- What is inserted into a longer string for what a path leads to. -/
def inserted : Option Json → String
  | none => ""
  | some .null => ""
  | some (.string text) => text
  | some value => serde.toText value

/-- A part of a longer string, filled in. -/
def filled (resolve : List String → Option Json) : TemplatePart → String
  | .text text => text
  | .placeholder path => inserted serde (resolve path)

/-- The second value is the first with its placeholders filled in by what
their paths lead to. What they lead to is inserted as it is. -/
inductive Fills (resolve : List String → Option Json) : Json → Json → Prop where
  | value {text : String} {path : List String} : Reads text.toList [.placeholder path] →
      Fills resolve (.string text) ((resolve path).getD .null)
  | text {text : String} {parts : List TemplatePart} : Reads text.toList parts →
      (∀ path, parts ≠ [.placeholder path]) →
      Fills resolve (.string text) (.string (String.join (parts.map (filled serde resolve))))
  | array {items rendered : List Json} : items.length = rendered.length →
      (∀ (i : Nat) item value, items[i]? = some item → rendered[i]? = some value →
        Fills resolve item value) →
      Fills resolve (.array items) (.array rendered)
  | object {members rendered : List (String × Json)} :
      members.map Prod.fst = rendered.map Prod.fst →
      (∀ (i : Nat) member field, members[i]? = some member → rendered[i]? = some field →
        Fills resolve member.2 field.2) →
      Fills resolve (.object members) (.object rendered)
  | null : Fills resolve .null .null
  | bool (b : Bool) : Fills resolve (.bool b) (.bool b)
  | number (text : String) : Fills resolve (.number text) (.number text)

/-- The values have the same shape and keys, except where the first is a
single placeholder. -/
inductive SameShape : Json → Json → Prop where
  | placeholder {text : String} {path : List String} {value : Json} :
      Reads text.toList [.placeholder path] → SameShape (.string text) value
  | string {text rendered : String} : (∀ path, ¬ Reads text.toList [.placeholder path]) →
      SameShape (.string text) (.string rendered)
  | array {items rendered : List Json} : items.length = rendered.length →
      (∀ (i : Nat) item value, items[i]? = some item → rendered[i]? = some value →
        SameShape item value) →
      SameShape (.array items) (.array rendered)
  | object {members rendered : List (String × Json)} :
      members.map Prod.fst = rendered.map Prod.fst →
      (∀ (i : Nat) member field, members[i]? = some member → rendered[i]? = some field →
        SameShape member.2 field.2) →
      SameShape (.object members) (.object rendered)
  | null : SameShape .null .null
  | bool (b : Bool) : SameShape (.bool b) (.bool b)
  | number (text : String) : SameShape (.number text) (.number text)

/-- A placeholder of the value names the path. -/
inductive Names : Json → List String → Prop where
  | string {text : String} {parts : List TemplatePart} {path : List String} :
      Reads text.toList parts → .placeholder path ∈ parts → Names (.string text) path
  | array {items : List Json} {item : Json} {path : List String} : item ∈ items →
      Names item path → Names (.array items) path
  | object {members : List (String × Json)} {member : String × Json} {path : List String} :
      member ∈ members → Names member.2 path → Names (.object members) path

/-- A string is read in one way only. -/
theorem Reads.unique {parts parts' : List TemplatePart} (h : Reads text parts)
    (h' : Reads text parts') : parts = parts' := by
  have hreads := (splitRest_iff text).1
  exact Option.some.inj (((hreads parts).2 h).symm.trans ((hreads parts').2 h'))

/-- What is filled in has the shape of the template. -/
theorem Fills.sameShape {resolve : List String → Option Json} {template rendered : Json}
    (h : Fills serde resolve template rendered) : SameShape template rendered := by
  induction h with
  | value hreads => exact .placeholder hreads
  | text hreads hparts => exact .string fun path h => hparts path (hreads.unique h)
  | array hlength _ ih => exact .array hlength ih
  | object hkeys _ ih => exact .object hkeys ih
  | null => exact .null
  | bool b => exact .bool b
  | number text => exact .number text

variable (event : Json)

theorem renderItems_eq (items : List Json) :
    renderItems serde event items = items.map (renderValue serde event) := by
  induction items with
  | nil => rfl
  | cons item items ih => rw [renderItems, ih, List.map_cons]

theorem renderMembers_eq (members : List (String × Json)) :
    renderMembers serde event members =
      members.map fun member => (member.1, renderValue serde event member.2) := by
  induction members with
  | nil => rfl
  | cons member members ih => rw [renderMembers, ih, List.map_cons]

theorem wellFormedItems_iff (items : List Json) :
    WellFormedItems items ↔ ∀ item ∈ items, WellFormed item := by
  induction items with
  | nil => simp [WellFormedItems]
  | cons item items ih => simp [WellFormedItems, ih]

/-- The values of the members of a well-formed object are well-formed. -/
theorem WellFormedMembers.value {members : List (String × Json)} (h : WellFormedMembers members) :
    ∀ member ∈ members, WellFormed member.2 := by
  induction members with
  | nil => simp
  | cons member members ih =>
      obtain ⟨-, hvalue, hmembers⟩ := h
      simpa using ⟨hvalue, by simpa using ih hmembers⟩

theorem partText_eq (part : TemplatePart) :
    partText serde event part = filled serde (lookup event) part := by
  cases part with
  | text text => rfl
  | placeholder path =>
      rw [partText, filled]
      rcases lookup event path with _ | _ | _ | _ | _ | _ | _ <;> rfl

/-- The parts of a string are rendered by filling them in. -/
theorem renderParts_fills {text : String} {parts : List TemplatePart}
    (hreads : Reads text.toList parts) :
    Fills serde (lookup event) (.string text) (renderParts serde event parts) := by
  unfold renderParts
  split
  · exact .value hreads
  · next hparts =>
      have hjoin : parts.foldl (fun rendered part => rendered ++ partText serde event part) "" =
          String.join (parts.map (filled serde (lookup event))) := by
        rw [String.join, List.foldl_map]
        simp only [partText_eq]
      rw [hjoin]
      exact .text hreads hparts

/-- Rendering fills in the placeholders of a well-formed value. -/
theorem renderValue_fills {value : Json} (h : WellFormed value) :
    Fills serde (lookup event) value (renderValue serde event value) := by
  induction value using Json.induction with
  | null => exact .null
  | bool b => exact .bool b
  | number text => exact .number text
  | string text =>
      obtain ⟨parts, hparts⟩ : ∃ parts, splitRest text.toList = some parts := by
        rw [← Option.ne_none_iff_exists']
        exact fun hnone => h.1 ((splitRest_iff _).2.1 hnone)
      have hreads := ((splitRest_iff _).1 parts).1 hparts
      rw [renderValue, renderString, split_iff.2 hreads]
      exact renderParts_fills serde event hreads
  | array items ih =>
      rw [renderValue, renderItems_eq]
      refine .array (by simp) fun i item value hitem hvalue => ?_
      rw [List.getElem?_map, hitem] at hvalue
      cases hvalue
      have hmem := List.mem_of_getElem? hitem
      exact ih item hmem ((wellFormedItems_iff items).1 h item hmem)
  | object members ih =>
      rw [renderValue, renderMembers_eq]
      refine .object (by simp) fun i member field hmember hfield => ?_
      rw [List.getElem?_map, hmember] at hfield
      cases hfield
      have hmem := List.mem_of_getElem? hmember
      exact ih member hmem (WellFormedMembers.value h member hmem)

variable {serde event} {event' : Json}

/-- Strings are rendered alike when the paths they name lead to the same. -/
theorem renderParts_congr {parts : List TemplatePart}
    (h : ∀ path, .placeholder path ∈ parts → lookup event path = lookup event' path) :
    renderParts serde event parts = renderParts serde event' parts := by
  have hfilled : ∀ part ∈ parts, partText serde event part = partText serde event' part := by
    intro part hpart
    cases part with
    | text text => rfl
    | placeholder path => simp only [partText_eq, filled, h path hpart]
  unfold renderParts
  split
  · rw [h _ (List.mem_singleton.2 rfl)]
  · rw [List.foldl_ext _ _ _ fun rendered part hpart => by rw [hfilled part hpart]]

/-- Values are rendered alike when the paths they name lead to the same. -/
theorem renderValue_congr {value : Json}
    (h : ∀ path, Names value path → lookup event path = lookup event' path) :
    renderValue serde event value = renderValue serde event' value := by
  induction value using Json.induction with
  | null => rfl
  | bool b => rfl
  | number text => rfl
  | string text =>
      rw [renderValue, renderValue, renderString, renderString]
      cases hsplit : split text with
      | error e => rfl
      | ok parts =>
          exact renderParts_congr fun path hpath => h path (.string (split_iff.1 hsplit) hpath)
  | array items ih =>
      rw [renderValue, renderValue, renderItems_eq, renderItems_eq]
      congr 1
      refine List.map_congr_left fun item hitem => ih item hitem fun path hpath => ?_
      exact h path (.array hitem hpath)
  | object members ih =>
      rw [renderValue, renderValue, renderMembers_eq, renderMembers_eq]
      congr 1
      refine List.map_congr_left fun member hmember => ?_
      rw [ih member hmember fun path hpath => h path (.object hmember hpath)]

theorem parse_iff {text : String} {template : Template} :
    parse serde text = .ok template ↔ serde.fromStr text = .ok template.root := by
  obtain ⟨root, hvalid⟩ := template
  unfold parse
  cases serde.fromStr text with
  | error e => simp
  | ok root' =>
      dsimp only
      split
      case h_1 e hinvalid =>
        refine ⟨nofun, fun h => ?_⟩
        cases h
        cases hvalid.symm.trans hinvalid
      case h_2 => simp

/-- The result of rendering a template. -/
theorem render_eq {template : Template} {event : JobLifecycleEvent} {value : Json}
    (h : serde.toValue event = .ok value) :
    template.render serde event = .ok (renderValue serde value template.root) := by
  simp [Template.render, h, bind, Except.bind, pure, Except.pure]

-- == templates

/-- A text is accepted exactly if it is a value whose placeholders all name
known paths, whose opening braces are all closed, and whose keys have none. A
template that was accepted renders every event to a value of its shape, with
only its own placeholders filled in, and from no more of the event than what
the paths it names lead to. -/
theorem templates_injection_free (serde : Serde)
    (hserialize : ∀ event, ∃ value, serde.toValue event = .ok value) :
    (∀ text, (∃ template, parse serde text = .ok template) ↔
      ∃ root, serde.fromStr text = .ok root ∧ WellFormed root) ∧
    ∀ text template, parse serde text = .ok template →
      serde.fromStr text = .ok template.root ∧
      (∀ event, ∃ value rendered, serde.toValue event = .ok value ∧
        template.render serde event = .ok rendered ∧
        Fills serde (lookup value) template.root rendered ∧
        SameShape template.root rendered) ∧
      ∀ event event' value value', serde.toValue event = .ok value →
        serde.toValue event' = .ok value' →
        (∀ path, Names template.root path → lookup value path = lookup value' path) →
        template.render serde event = template.render serde event' := by
  refine ⟨fun text => ⟨fun h => ?_, fun h => ?_⟩, fun text template htemplate => ?_⟩
  · obtain ⟨template, htemplate⟩ := h
    exact ⟨template.root, parse_iff.1 htemplate, (validateValue_iff _).1 template.valid⟩
  · obtain ⟨root, hroot, hformed⟩ := h
    exact ⟨⟨root, (validateValue_iff root).2 hformed⟩, parse_iff.2 hroot⟩
  · refine ⟨parse_iff.1 htemplate, fun event => ?_, ?_⟩
    · obtain ⟨value, hvalue⟩ := hserialize event
      have hfills := renderValue_fills serde value ((validateValue_iff _).1 template.valid)
      exact ⟨value, _, hvalue, render_eq hvalue, hfills, hfills.sameShape⟩
    · intro event event' value value' hvalue hvalue' hnamed
      rw [render_eq hvalue, render_eq hvalue', renderValue_congr hnamed]

/-- A template string that is the identifier of the job. -/
def jobIdText : String := "\x7b\x7bevent.job_id\x7d\x7d"

/-- The template that consists of it, and the value of an event. -/
def plainSerde : Serde where
  fromStr text :=
    if text = "\"" ++ jobIdText ++ "\"" then .ok (.string jobIdText)
    else .error "expected value at line 1 column 1"
  toValue _ := .ok (.object
    [("error", .null), ("event_id", .string "00000000-0000-0000-0000-000000000000"),
      ("event_type", .string "completed"),
      ("job_id", .string "00000000-0000-0000-0000-000000000001"), ("metadata", .object []),
      ("payload", .null), ("priority", .string "Normal"), ("processing_time_ms", .null),
      ("queue_name", .string "mail"), ("timestamp", .string "1970-01-01T00:00:00Z")])
  toText _ := "null"

theorem jobIdText_reads : Reads jobIdText.toList [.placeholder ["event", "job_id"]] := by
  have hopen : FirstPair openBrace jobIdText.toList [] "event.job_id\x7d\x7d".toList := by
    refine ⟨?_, by decide⟩
    simp [jobIdText, openBrace]
  have hclose : FirstPair closeBrace "event.job_id\x7d\x7d".toList
      ['e', 'v', 'e', 'n', 't', '.', 'j', 'o', 'b', '_', 'i', 'd'] [] := by
    refine ⟨?_, by decide⟩
    simp [closeBrace]
  have hpath : parsePath ['e', 'v', 'e', 'n', 't', '.', 'j', 'o', 'b', '_', 'i', 'd'] =
      ["event", "job_id"] := by
    decide
  have hrest : Reads [] [] := .text (not_infix_short openBrace (by simp))
  simpa [textPart, hpath] using Reads.placeholder hopen hclose hrest

theorem jobIdText_wellFormed : WellFormed (.string jobIdText) := by
  rw [← validateValue_iff, validateValue, split_iff.2 jobIdText_reads]
  decide

theorem templates_injection_free_job_id :
    (∃ template, parse plainSerde ("\"" ++ jobIdText ++ "\"") = .ok template) ∧
      ∀ template, parse plainSerde ("\"" ++ jobIdText ++ "\"") = .ok template →
        ∃ rendered, template.render plainSerde plainEvent = .ok rendered ∧
          SameShape template.root rendered := by
  obtain ⟨haccepts, hrenders⟩ := templates_injection_free plainSerde fun _ => ⟨_, rfl⟩
  have hroot : plainSerde.fromStr ("\"" ++ jobIdText ++ "\"") = .ok (.string jobIdText) := by
    simp [plainSerde]
  refine ⟨(haccepts _).2 ⟨_, hroot, jobIdText_wellFormed⟩, fun template htemplate => ?_⟩
  obtain ⟨-, hrendered, -⟩ := hrenders _ template htemplate
  obtain ⟨value, rendered, -, hok, -, hshape⟩ := hrendered plainEvent
  exact ⟨rendered, hok, hshape⟩

end PayloadTemplate

end Hammerwork
