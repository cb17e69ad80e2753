/-
What a redaction leaves of a payload.

Replacing the value at one place keeps every key of the objects above it,
so a path resolves afterwards exactly if it did before and its place is
not strictly inside the replaced one. A whole run of the redactor is then
described by the places of the paths it has found, all resolved in the
payload it started from: `Tracks` is that description, `Tracks.redact`
that one more field keeps it.
-/
import Hammerwork.Redaction

namespace Hammerwork

namespace Json

-- == one replacement

/-- The steps into the keys of a place. -/
def keys (place : List String) : List Step := place.map .key

@[simp] theorem keys_nil : keys [] = [] := rfl

@[simp] theorem keys_cons (key : String) (rest : List String) :
    keys (key :: rest) = .key key :: keys rest := rfl

@[simp] theorem get?_nil (value : Json) : value.get? [] = some value := rfl

@[simp] theorem get?_object_key (members : List (String × Json)) (name : String)
    (rest : List Step) :
    (object members).get? (.key name :: rest) = (members.lookup name).bind (get? rest) := rfl

/-- A string has nothing under it. -/
theorem get?_string (text : String) {steps : List Step} (h : steps ≠ []) :
    (string text).get? steps = none := by
  cases steps with
  | nil => exact absurd rfl h
  | cons step rest => cases step <;> rfl

/-- Only an object has something under a key. -/
theorem object_of_get?_key {value : Json} {name : String} {rest : List Step}
    (h : (value.get? (.key name :: rest)).isSome) :
    ∃ members child, value = .object members ∧ members.lookup name = some child ∧
      (child.get? rest).isSome := by
  cases value with
  | object members =>
      rw [get?_object_key, Option.isSome_bind] at h
      cases hchild : members.lookup name with
      | none => simp [hchild] at h
      | some child => exact ⟨members, child, rfl, hchild, by simpa [hchild] using h⟩
  | _ => simp [get?] at h

/-- What a key of an object holds after a replacement under one of them. -/
theorem lookup_put (members : List (String × Json)) (key : String) (rest : List String)
    (new : Json) (name : String) :
    (members.map fun m => if m.1 = key then (m.1, put m.2 rest new) else m).lookup name =
      (members.lookup name).map fun child =>
        if name = key then child.put rest new else child := by
  induction members with
  | nil => rfl
  | cons m members ih =>
      obtain ⟨k, child⟩ := m
      rw [List.map_cons]
      by_cases hname : name = k
      · subst hname
        by_cases hkey : name = key <;> simp [hkey]
      · have hhead : ((name == k) : Bool) = false := by simpa using hname
        by_cases hkey : k = key
        · rw [if_pos hkey, List.lookup_cons, List.lookup_cons, hhead]
          exact ih
        · rw [if_neg hkey, List.lookup_cons, List.lookup_cons, hhead]
          exact ih

/-- After a replacement by a string, the keys of a place still lead
somewhere unless they go further than the replaced place. -/
theorem isSome_get?_put {text : String} :
    ∀ {place : List String} {value : Json}, (value.get? (keys place)).isSome →
      ∀ other : List String,
        ((value.put place (.string text)).get? (keys other)).isSome ↔
          (value.get? (keys other)).isSome ∧ (place <+: other → place = other) := by
  intro place
  induction place with
  | nil =>
      intro value _ other
      cases other with
      | nil => simp [put]
      | cons name rest => simp [put, get?_string]
  | cons key place ih =>
      intro value hplace other
      obtain ⟨members, child, rfl, hchild, hbelow⟩ := object_of_get?_key hplace
      cases other with
      | nil => simp
      | cons name rest =>
          rw [keys_cons, put, get?_object_key, get?_object_key, lookup_put]
          by_cases hname : name = key
          · subst hname
            simpa [hchild] using ih hbelow rest
          · have hne : ¬ (key = name) := fun h => hname h.symm
            simp [hname, hne, List.cons_prefix_cons]

-- == cover

/-- The value some steps below reads as replaced, or lies inside one that
does. -/
def Covered (value : Json) (location : List Step) : Prop :=
  ∃ above, above <+: location ∧ value.get? above = some (.string redactedFieldValue)

/-- Nothing but the top covers the top. -/
@[simp] theorem covered_nil {value : Json} :
    value.Covered [] ↔ value = .string redactedFieldValue := by
  constructor
  · rintro ⟨above, habove, hget⟩
    rw [List.prefix_nil.1 habove] at hget
    exact Option.some.inj hget
  · intro h
    exact ⟨[], List.prefix_rfl, by rw [h]; rfl⟩

/-- A replaced value covers everything under it. -/
theorem covered_string (location : List Step) :
    (string redactedFieldValue).Covered location :=
  ⟨[], List.nil_prefix, rfl⟩

/-- Below an object, a location is covered by what its key holds. -/
theorem covered_object_key {members : List (String × Json)} {name : String}
    {rest : List Step} :
    (object members).Covered (.key name :: rest) ↔
      ∃ child, members.lookup name = some child ∧ child.Covered rest := by
  constructor
  · rintro ⟨above, habove, hget⟩
    cases above with
    | nil => simp at hget
    | cons step above =>
        obtain ⟨rfl, hbelow⟩ := List.cons_prefix_cons.1 habove
        rw [get?_object_key, Option.bind_eq_some_iff] at hget
        obtain ⟨child, hchild, hget⟩ := hget
        exact ⟨child, hchild, above, hbelow, hget⟩
  · rintro ⟨child, hchild, above, habove, hget⟩
    refine ⟨.key name :: above, List.cons_prefix_cons.2 ⟨rfl, habove⟩, ?_⟩
    rw [get?_object_key, hchild]
    exact hget

/-- An object has no items. -/
theorem not_covered_object_index {members : List (String × Json)} {i : Nat}
    {rest : List Step} : ¬ (object members).Covered (.index i :: rest) := by
  rintro ⟨above, habove, hget⟩
  cases above with
  | nil => simp at hget
  | cons step above =>
      obtain ⟨rfl, _⟩ := List.cons_prefix_cons.1 habove
      simp [get?] at hget

/-- A replacement covers what was covered, and its own place with
everything inside it. -/
theorem covered_put :
    ∀ {place : List String} {value : Json}, (value.get? (keys place)).isSome →
      ∀ location : List Step,
        (value.put place (.string redactedFieldValue)).Covered location ↔
          value.Covered location ∨ keys place <+: location := by
  intro place
  induction place with
  | nil =>
      intro value _ location
      exact iff_of_true (covered_string location) (.inr List.nil_prefix)
  | cons key place ih =>
      intro value hplace location
      obtain ⟨members, child, rfl, hchild, hbelow⟩ := object_of_get?_key hplace
      cases location with
      | nil => simp [put]
      | cons step rest =>
          cases step with
          | index i =>
              rw [put]
              simp [not_covered_object_index, List.cons_prefix_cons]
          | key name =>
              rw [put, covered_object_key, covered_object_key, lookup_put, keys_cons,
                List.cons_prefix_cons]
              by_cases hname : name = key
              · subst hname
                simpa [hchild] using ih hbelow rest
              · have hne : ¬ (key = name) := fun h => hname h.symm
                simp [hname, hne]

-- == resolving

/-- A resolved path leads to a value, below the top. -/
theorem resolve_reaches {value : Json} {path : String} {place : List String}
    (h : value.resolve path = some place) :
    place ≠ [] ∧ (value.get? (keys place)).isSome := by
  cases value with
  | object members =>
      unfold resolve at h
      dsimp only at h
      split at h
      case isTrue hkey =>
        obtain rfl := Option.some.inj h
        exact ⟨List.cons_ne_nil _ _, by simpa [Option.isSome_bind] using hkey⟩
      case isFalse =>
        split at h
        case isTrue hwalk =>
          obtain rfl := Option.some.inj h
          refine ⟨fun hnil => ?_, hwalk⟩
          exact List.splitOnP_ne_nil _ _ (List.map_eq_nil_iff.1 hnil)
        case isFalse => simp at h
  | _ => simp [resolve] at h

/-- After a replacement a path resolves as before, unless its place is
strictly inside the replaced one. -/
theorem resolve_put {value : Json} {text path : String} {place : List String}
    (hplace : value.resolve path = some place) (other : String) (there : List String) :
    (value.put place (.string text)).resolve other = some there ↔
      value.resolve other = some there ∧ (place <+: there → place = there) := by
  obtain ⟨hne, hreach⟩ := resolve_reaches hplace
  cases place with
  | nil => exact absurd rfl hne
  | cons key rest =>
      obtain ⟨members, child, rfl, hchild, _⟩ := object_of_get?_key hreach
      have hwalk : ∀ other : List String,
          (((object members).put (key :: rest) (.string text)).get? (keys other)).isSome ↔
            ((object members).get? (keys other)).isSome ∧
              (key :: rest <+: other → key :: rest = other) :=
        isSome_get?_put hreach
      rw [put] at hwalk ⊢
      unfold resolve
      dsimp only
      rw [lookup_put, Option.isSome_map]
      by_cases hkey : (members.lookup other).isSome = true
      · rw [if_pos hkey, if_pos hkey]
        constructor
        · intro h
          refine ⟨h, fun hprefix => ?_⟩
          obtain rfl := Option.some.inj h
          obtain ⟨rfl, hnil⟩ := List.cons_prefix_cons.1 hprefix
          rw [List.prefix_nil.1 hnil]
        · exact fun h => h.1
      · rw [if_neg hkey, if_neg hkey]
        have hwalk := hwalk ((other.toList.splitOn '.').map String.ofList)
        unfold keys at hwalk
        constructor
        · intro h
          split at h
          case isTrue hreached =>
            obtain ⟨hbefore, hprefix⟩ := hwalk.1 hreached
            obtain rfl := Option.some.inj h
            exact ⟨if_pos hbefore, hprefix⟩
          case isFalse => simp at h
        · rintro ⟨h, hprefix⟩
          split at h
          case isTrue hreached =>
            obtain rfl := Option.some.inj h
            exact if_pos (hwalk.2 ⟨hreached, hprefix⟩)
          case isFalse => simp at h

-- == distinct keys

/-- Every object in the value has distinct keys, as a map has. -/
def Keyed (value : Json) : Prop :=
  ∀ location members, value.get? location = some (.object members) →
    (members.map Prod.fst).Nodup

/-- What an object holds is keyed if the object is. -/
theorem Keyed.child {members : List (String × Json)} {name : String} {child : Json}
    (h : (object members).Keyed) (hchild : members.lookup name = some child) : child.Keyed := by
  intro location below hget
  refine h (.key name :: location) below ?_
  rw [get?_object_key, hchild]
  exact hget

/-- The keys of an object after a replacement under one of them. -/
theorem map_fst_put (members : List (String × Json)) (key : String) (rest : List String)
    (new : Json) :
    (members.map fun m => if m.1 = key then (m.1, put m.2 rest new) else m).map Prod.fst =
      members.map Prod.fst := by
  rw [List.map_map]
  refine List.map_congr_left fun m _ => ?_
  show (if m.1 = key then (m.1, put m.2 rest new) else m).1 = m.1
  split <;> rfl

/-- A replacement by a keyed value leaves a keyed value. -/
theorem Keyed.put {new : Json} (hnew : new.Keyed) :
    ∀ (place : List String) {value : Json}, value.Keyed → (value.put place new).Keyed := by
  intro place
  induction place with
  | nil => intro value _; simpa [Json.put] using hnew
  | cons key place ih =>
      intro value hvalue
      cases value with
      | object members =>
          intro location below hget
          rw [Json.put] at hget
          cases location with
          | nil =>
              obtain rfl := Json.object.inj (Option.some.inj hget)
              rw [map_fst_put]
              exact hvalue [] members rfl
          | cons step rest =>
              cases step with
              | index i => simp [get?] at hget
              | key name =>
                  rw [get?_object_key, lookup_put] at hget
                  cases hchild : members.lookup name with
                  | none => simp [hchild] at hget
                  | some child =>
                      have hkeyed : child.Keyed := hvalue.child hchild
                      by_cases hname : name = key
                      · subst hname
                        exact ih hkeyed rest below (by simpa [hchild] using hget)
                      · exact hkeyed rest below (by simpa [hchild, hname] using hget)
      | _ => simpa [Json.put] using hvalue

/-- A string holds no object. -/
theorem keyed_string (text : String) : (string text).Keyed := by
  intro location members hget
  cases location with
  | nil => simp at hget
  | cons step rest => rw [get?_string text (List.cons_ne_nil _ _)] at hget; simp at hget

/-- The member of a key, where keys are distinct. -/
theorem lookup_of_mem {members : List (String × Json)} (hnd : (members.map Prod.fst).Nodup)
    {m : String × Json} (hm : m ∈ members) : members.lookup m.1 = some m.2 := by
  induction members with
  | nil => simp at hm
  | cons m' members ih =>
      obtain ⟨hhead, htail⟩ := List.nodup_cons.1 hnd
      rw [List.lookup_cons]
      rcases List.mem_cons.1 hm with rfl | hm
      · simp
      · have hne : ((m.1 == m'.1) : Bool) = false := by
          simpa using fun h : m.1 = m'.1 => hhead (h ▸ List.mem_map_of_mem hm)
        rw [hne]
        exact ih htail hm

/-- An object of keyed values under distinct keys is keyed. -/
theorem keyed_object {members : List (String × Json)} (hnd : (members.map Prod.fst).Nodup)
    (h : ∀ m ∈ members, m.2.Keyed) : (object members).Keyed := by
  intro location below hget
  cases location with
  | nil =>
      obtain rfl := Json.object.inj (Option.some.inj hget)
      exact hnd
  | cons step rest =>
      cases step with
      | index i => simp [get?] at hget
      | key name =>
          rw [get?_object_key, Option.bind_eq_some_iff] at hget
          obtain ⟨child, hchild, hget⟩ := hget
          obtain ⟨before, after, rfl, _⟩ := List.lookup_eq_some_iff.1 hchild
          exact h (name, child) (by simp) rest below hget

/-- A value put back where it was undoes a replacement. -/
theorem put_put {new : Json} :
    ∀ {place : List String} {value : Json}, value.Keyed → (value.get? (keys place)).isSome →
      (value.put place new).put place ((value.get? (keys place)).getD .null) = value := by
  intro place
  induction place with
  | nil => intro value _ _; simp [put]
  | cons key place ih =>
      intro value hkeyed hplace
      obtain ⟨members, child, rfl, hchild, hbelow⟩ := object_of_get?_key hplace
      have hold : (object members).get? (keys (key :: place)) = child.get? (keys place) := by
        rw [keys_cons, get?_object_key, hchild]
        rfl
      rw [hold, put, put, List.map_map]
      refine congrArg Json.object ((List.map_congr_left fun m hm => ?_).trans (List.map_id _))
      by_cases hkey : m.1 = key
      · -- keys are distinct, so this member is the child
        have hm2 : m.2 = child := by
          have hlookup := lookup_of_mem (hkeyed [] members rfl) hm
          rw [hkey, hchild] at hlookup
          exact (Option.some.inj hlookup).symm
        show _ = m
        simp only [Function.comp_apply, hkey, if_true]
        rw [hm2, ih (hkeyed.child hchild) hbelow, ← hkey, ← hm2]
      · show _ = m
        simp only [Function.comp_apply, hkey, if_false]

-- == shapes

/-- A value without what it holds: its kind, with the text of a scalar,
the length of an array, the keys of an object. -/
inductive Shape where
  | null
  | bool (b : Bool)
  | number (text : String)
  | string (text : String)
  | array (length : Nat)
  | object (keys : List String)
  deriving DecidableEq, Repr

/-- The shape of a value. -/
def shape : Json → Shape
  | null => .null
  | bool b => .bool b
  | number text => .number text
  | string text => .string text
  | array items => .array items.length
  | object members => .object (members.map Prod.fst)

/-- The shape some steps below a value. -/
def shapeAt (value : Json) (location : List Step) : Option Shape :=
  (value.get? location).map shape

/-- Only a string has the shape of a string. -/
theorem eq_string_of_shape {value : Json} {text : String}
    (h : value.shape = .string text) : value = .string text := by
  cases value with
  | string text' => rw [Shape.string.inj h]
  | _ => simp [shape] at h

/-- Steps taken one after the other. -/
theorem get?_append (above below : List Step) (value : Json) :
    value.get? (above ++ below) = (value.get? above).bind (get? below) := by
  induction above generalizing value with
  | nil => rfl
  | cons step above ih =>
      cases step with
      | key name =>
          cases value with
          | object members =>
              rw [List.cons_append, get?_object_key, get?_object_key, Option.bind_assoc]
              exact congrArg _ (funext fun child => ih child)
          | _ => rfl
      | index i =>
          cases value with
          | array items =>
              rw [List.cons_append, get?, get?, Option.bind_assoc]
              exact congrArg _ (funext fun child => ih child)
          | _ => rfl

/-- A replacement leaves everything outside its place as it was. -/
theorem shapeAt_put {new : Json} :
    ∀ (place : List String) (value : Json) (location : List Step),
      ¬ keys place <+: location →
        (value.put place new).shapeAt location = value.shapeAt location := by
  intro place
  induction place with
  | nil => exact fun value location h => absurd List.nil_prefix h
  | cons key place ih =>
      intro value location hout
      cases value with
      | object members =>
          rw [put]
          cases location with
          | nil =>
              show some (Shape.object _) = some (Shape.object _)
              rw [map_fst_put]
          | cons step rest =>
              cases step with
              | index i => rfl
              | key name =>
                  unfold shapeAt
                  rw [get?_object_key, get?_object_key, lookup_put]
                  cases hchild : members.lookup name with
                  | none => rfl
                  | some child =>
                      by_cases hname : name = key
                      · subst hname
                        have hbelow : ¬ keys place <+: rest := fun h =>
                          hout (List.cons_prefix_cons.2 ⟨rfl, h⟩)
                        simpa [shapeAt] using ih child rest hbelow
                      · simp [hname]
      | _ => rfl

/-- The new value is where the old one was. -/
theorem get?_put {new : Json} :
    ∀ {place : List String} {value : Json}, (value.get? (keys place)).isSome →
      (value.put place new).get? (keys place) = some new := by
  intro place
  induction place with
  | nil => intro value _; simp [put]
  | cons key place ih =>
      intro value hplace
      obtain ⟨members, child, rfl, hchild, hbelow⟩ := object_of_get?_key hplace
      rw [put, keys_cons, get?_object_key, lookup_put, hchild]
      simpa using ih hbelow

/-- Two values of the same shape everywhere are the same. -/
theorem eq_of_shapeAt : ∀ {value other : Json}, value.Keyed → other.Keyed →
    (∀ location, value.shapeAt location = other.shapeAt location) → value = other := by
  intro value
  induction hn : sizeOf value using Nat.strongRecOn generalizing value with
  | ind n ih =>
      intro other hvalue hother hshape
      have htop : value.shape = other.shape := Option.some.inj (hshape [])
      cases value with
      | array items =>
          cases other with
          | array items' =>
              refine congrArg Json.array (List.ext_getElem (Shape.array.inj htop) ?_)
              intro i hi hi'
              have hitem : ∀ (l : List Json) (hi : i < l.length) (below : List Step),
                  (Json.array l).get? (.index i :: below) = l[i].get? below := by
                intro l hi below
                rw [get?, List.getElem?_eq_getElem hi]
                rfl
              have hsize := List.sizeOf_lt_of_mem (List.getElem_mem hi)
              refine ih (sizeOf items[i]) (by rw [← hn]; simp; omega) rfl ?_ ?_ ?_
              · exact fun location members hget =>
                  hvalue (.index i :: location) members ((hitem items hi location).trans hget)
              · exact fun location members hget =>
                  hother (.index i :: location) members ((hitem items' hi' location).trans hget)
              · intro location
                have hbelow := hshape (.index i :: location)
                rw [shapeAt, shapeAt, hitem items hi, hitem items' hi'] at hbelow
                exact hbelow
          | _ => simp [shape] at htop
      | object members =>
          cases other with
          | object members' =>
              have hkeys : members.map Prod.fst = members'.map Prod.fst := Shape.object.inj htop
              have hlength : members.length = members'.length := by
                simpa using congrArg List.length hkeys
              refine congrArg Json.object (List.ext_getElem hlength ?_)
              intro i hi hi'
              have hkey : members[i].1 = members'[i].1 := by
                have h := congrArg (·[i]?) hkeys
                simpa [List.getElem?_eq_getElem hi, List.getElem?_eq_getElem hi'] using h
              have hchild := lookup_of_mem (hvalue [] members rfl) (List.getElem_mem hi)
              have hchild' := lookup_of_mem (hother [] members' rfl) (List.getElem_mem hi')
              have hsize := List.sizeOf_lt_of_mem (List.getElem_mem hi)
              have hpair : sizeOf members[i].2 < sizeOf members[i] := by
                cases members[i]
                simp only [Prod.mk.sizeOf_spec]
                omega
              refine Prod.ext hkey (ih (sizeOf members[i].2) ?_ rfl (hvalue.child hchild)
                (hother.child hchild') ?_)
              · rw [← hn]
                simp
                omega
              · intro location
                have hbelow := hshape (.key members[i].1 :: location)
                rw [shapeAt, shapeAt, get?_object_key, get?_object_key, hchild, hkey,
                  hchild'] at hbelow
                exact hbelow
          | _ => simp [shape] at htop
      | string text => exact (eq_string_of_shape htop.symm).symm
      | _ => cases other <;> simp_all [shape]

end Json

open Json

-- == one field

/-- One field is passed over, or the value at its place is taken out. -/
theorem redactField_cases (r : Redaction) (field : String) :
    (redactField r field = r ∧ (field ∈ r.found ∨ r.redacted.resolve field = none)) ∨
      ∃ place value, field ∉ r.found ∧ r.redacted.resolve field = some place ∧
        redactField r field =
          ⟨r.redacted.put place (.string redactedFieldValue),
            r.removed ++ [.array [.string field, value]], r.found ++ [field]⟩ := by
  unfold redactField
  by_cases hfound : field ∈ r.found
  · exact .inl ⟨if_pos hfound, .inl hfound⟩
  · rw [if_neg hfound]
    cases hplace : r.redacted.resolve field with
    | none => exact .inl ⟨rfl, .inr rfl⟩
    | some place => exact .inr ⟨place, _, hfound, rfl, rfl⟩

/-- A field the redactor has passed over. -/
def Redaction.Missed (r : Redaction) (field : String) : Prop :=
  field ∉ r.found ∧ r.redacted.resolve field = none

/-- Replacements never make a path resolve. -/
theorem Redaction.Missed.redactField {r : Redaction} {field : String} (h : r.Missed field)
    (other : String) : (redactField r other).Missed field := by
  obtain ⟨heq, _⟩ | ⟨place, value, _, hplace, heq⟩ := redactField_cases r other
  · rw [heq]
    exact h
  · rw [heq]
    obtain ⟨hfound, hnone⟩ := h
    refine ⟨fun hmem => ?_, ?_⟩
    · rcases List.mem_append.1 hmem with hmem | hmem
      · exact hfound hmem
      · rw [List.mem_singleton.1 hmem, hplace] at hnone
        simp at hnone
    · rw [Option.eq_none_iff_forall_ne_some]
      intro there hthere
      have hbefore := ((resolve_put hplace field there).1 hthere).1
      rw [hnone] at hbefore
      simp at hbefore

/-- A field passed over is found by no later one. -/
theorem Redaction.Missed.redact {field : String} (fields : List String) {r : Redaction}
    (h : r.Missed field) : (fields.foldl Hammerwork.redactField r).Missed field := by
  induction fields generalizing r with
  | nil => exact h
  | cons other fields ih => exact ih (h.redactField other)

/-- A field once found stays found. -/
theorem mem_found_redact {field : String} (fields : List String) {r : Redaction}
    (h : field ∈ r.found) : field ∈ (fields.foldl redactField r).found := by
  induction fields generalizing r with
  | nil => exact h
  | cons other fields ih =>
      apply ih
      obtain ⟨heq, _⟩ | ⟨place, value, _, _, heq⟩ := redactField_cases r other
      · rw [heq]
        exact h
      · rw [heq]
        exact List.mem_append_left _ h

/-- A field just handled is found, or has been passed over. -/
theorem found_or_missed (r : Redaction) (field : String) :
    field ∈ (redactField r field).found ∨ (redactField r field).Missed field := by
  obtain ⟨heq, hfound | hnone⟩ | ⟨place, value, _, _, heq⟩ := redactField_cases r field
  · rw [heq]
    exact .inl hfound
  · rw [heq]
    by_cases hfound : field ∈ r.found
    · exact .inl hfound
    · exact .inr ⟨hfound, hnone⟩
  · rw [heq]
    exact .inl (List.mem_append_right _ (List.mem_singleton_self _))

-- == a run

/-- What the redactor has made of `payload`, told by the places of the
paths it has found. -/
structure Redaction.Tracks (payload : Json) (r : Redaction) : Prop where
  resolved : ∀ path ∈ r.found, ∃ place, payload.resolve path = some place
  resolves : ∀ path there, r.redacted.resolve path = some there ↔
    payload.resolve path = some there ∧
      ∀ taken ∈ r.found, ∀ place, payload.resolve taken = some place →
        place <+: there → place = there
  covers : ∀ location, r.redacted.Covered location ↔
    payload.Covered location ∨
      ∃ taken ∈ r.found, ∃ place, payload.resolve taken = some place ∧
        keys place <+: location

/-- Nothing is found before the first field. -/
theorem Redaction.Tracks.start (payload : Json) :
    Tracks payload ⟨payload, [], []⟩ := by
  refine ⟨fun path h => by simp at h, fun path there => ?_, fun location => ?_⟩
  · simp
  · simp

/-- One more field keeps the description. -/
theorem Redaction.Tracks.redactField {payload : Json} {r : Redaction} (h : Tracks payload r)
    (field : String) : Tracks payload (redactField r field) := by
  obtain ⟨heq, _⟩ | ⟨place, value, _, hplace, heq⟩ := redactField_cases r field
  · rw [heq]
    exact h
  · rw [heq]
    have hbefore : payload.resolve field = some place := ((h.resolves field place).1 hplace).1
    refine ⟨fun path hpath => ?_, fun path there => ?_, fun location => ?_⟩
    · rcases List.mem_append.1 hpath with hpath | hpath
      · exact h.resolved path hpath
      · exact ⟨place, by rw [List.mem_singleton.1 hpath, hbefore]⟩
    · rw [resolve_put hplace, h.resolves, and_assoc]
      refine and_congr_right fun _ => ⟨fun hall taken htaken place' hplace' => ?_, fun hall => ?_⟩
      · rcases List.mem_append.1 htaken with htaken | htaken
        · exact hall.1 taken htaken place' hplace'
        · rw [List.mem_singleton.1 htaken, hbefore] at hplace'
          rw [← Option.some.inj hplace']
          exact hall.2
      · exact ⟨fun taken htaken => hall taken (List.mem_append_left _ htaken),
          hall field (List.mem_append_right _ (List.mem_singleton_self _)) place hbefore⟩
    · rw [covered_put (resolve_reaches hplace).2, h.covers, or_assoc]
      refine or_congr_right ⟨fun hor => ?_, fun hex => ?_⟩
      · rcases hor with ⟨taken, htaken, hcover⟩ | hcover
        · exact ⟨taken, List.mem_append_left _ htaken, hcover⟩
        · exact ⟨field, List.mem_append_right _ (List.mem_singleton_self _), place, hbefore,
            hcover⟩
      · obtain ⟨taken, htaken, place', hplace', hcover⟩ := hex
        rcases List.mem_append.1 htaken with htaken | htaken
        · exact .inl ⟨taken, htaken, place', hplace', hcover⟩
        · rw [List.mem_singleton.1 htaken, hbefore] at hplace'
          rw [← Option.some.inj hplace'] at hcover
          exact .inr hcover

/-- A run of the redactor is told by the places of what it has found. -/
theorem Redaction.Tracks.redact {payload : Json} (fields : List String) {r : Redaction}
    (h : Tracks payload r) : Tracks payload (fields.foldl Hammerwork.redactField r) := by
  induction fields generalizing r with
  | nil => exact h
  | cons field fields ih => exact ih (h.redactField field)

/-- Only listed fields are found. -/
theorem found_subset_redact (fields : List String) (r : Redaction) :
    ∀ path ∈ (fields.foldl redactField r).found, path ∈ r.found ∨ path ∈ fields := by
  induction fields generalizing r with
  | nil => exact fun path hpath => .inl hpath
  | cons field fields ih =>
      intro path hpath
      rcases ih _ path hpath with hfound | hlisted
      · obtain ⟨heq, _⟩ | ⟨place, value, _, _, heq⟩ := redactField_cases r field
        · rw [heq] at hfound
          exact .inl hfound
        · rw [heq] at hfound
          rcases List.mem_append.1 hfound with hfound | hfound
          · exact .inl hfound
          · exact .inr (List.mem_cons.2 (.inl (List.mem_singleton.1 hfound)))
      · exact .inr (List.mem_cons_of_mem _ hlisted)

end Hammerwork
