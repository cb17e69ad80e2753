/-
What becomes of the values of the listed fields.

They are gone from the clear payload, and they come back. A redaction
followed by a restoration gives the payload it started from, whatever
paths were listed: each entry is put back into the payload it was taken
from, because the entries are put back in the reverse order
(`Redaction.Undoes`).

And the clear payload shows nothing of them: outside the outermost places
the paths lead to it has the shape of the payload, and at those places it
has the replacement (`Redaction.Shows`). Payloads that differ only inside
those places are the same in clear.
-/
import Hammerwork.Proofs.Redaction

namespace Hammerwork

open Json

-- == lossless

/-- The values removed so far, put back, give the payload. -/
structure Redaction.Undoes (payload : Json) (r : Redaction) : Prop where
  keyed : r.redacted.Keyed
  restores : r.removed.reverse.foldlM restoreField r.redacted = .ok payload

/-- Nothing removed, nothing to put back. -/
theorem Redaction.Undoes.start {payload : Json} (h : payload.Keyed) :
    Undoes payload ⟨payload, [], []⟩ :=
  ⟨h, rfl⟩

/-- The entry of a field just taken out puts it back. -/
theorem restoreField_put {value : Json} {field : String} {place : List String}
    (hkeyed : value.Keyed) (hplace : value.resolve field = some place) :
    restoreField (value.put place (.string redactedFieldValue))
        (.array [.string field, (value.get? (keys place)).getD .null]) = .ok value := by
  have hagain : (value.put place (.string redactedFieldValue)).resolve field = some place :=
    (resolve_put hplace field place).2 ⟨hplace, fun _ => rfl⟩
  unfold restoreField
  dsimp only
  rw [hagain]
  exact congrArg Except.ok (put_put hkeyed (resolve_reaches hplace).2)

/-- One more field can be put back too. -/
theorem Redaction.Undoes.redactField {payload : Json} {r : Redaction} (h : Undoes payload r)
    (field : String) : Undoes payload (redactField r field) := by
  unfold Hammerwork.redactField
  by_cases hfound : field ∈ r.found
  · rw [if_pos hfound]
    exact h
  · rw [if_neg hfound]
    cases hplace : r.redacted.resolve field with
    | none => exact h
    | some place =>
        refine ⟨(keyed_string _).put place h.keyed, ?_⟩
        dsimp only
        rw [List.reverse_append, List.reverse_singleton, List.singleton_append, List.foldlM_cons]
        show (restoreField _ (.array [.string field, (r.redacted.get? (keys place)).getD .null])
          >>= _) = _
        rw [restoreField_put h.keyed hplace]
        exact h.restores

/-- All fields can be put back. -/
theorem Redaction.Undoes.redact {payload : Json} (fields : List String) {r : Redaction}
    (h : Undoes payload r) : Undoes payload (fields.foldl Hammerwork.redactField r) := by
  induction fields generalizing r with
  | nil => exact h
  | cons field fields ih => exact ih (h.redactField field)

/-- The values of the listed fields, put back, give the payload they were
taken from. -/
theorem restore_redacted (members : List (String × Json)) (fields : List String)
    (hkeyed : (object members).Keyed) :
    ∃ redacted removed found,
      redactFields (.object members) fields = .ok (redacted, removed, found) ∧
        restoreFields redacted removed = .ok (.object members) :=
  ⟨_, _, _, rfl, ((Redaction.Undoes.start hkeyed).redact fields).restores⟩

/-- A customer, with a contact address. -/
def customer (email : Json) : Json :=
  .object [("name", .string "Ann"), ("contact", .object [("email", email)])]

/-- The keys of the customer are distinct. -/
theorem keyed_customer {email : Json} (h : email.Keyed) : (customer email).Keyed := by
  have hcontact : (object [("email", email)]).Keyed := keyed_object (by simp) (by simpa using h)
  exact keyed_object (by simp) (by simpa using ⟨keyed_string "Ann", hcontact⟩)

theorem restore_redacted_nested :
    ∃ redacted removed found,
      redactFields (customer (.string "ann@example.org"))
          ["contact.email", "phone", "contact", "contact.email"] =
        .ok (redacted, removed, found) ∧
        restoreFields redacted removed = .ok (customer (.string "ann@example.org")) :=
  restore_redacted _ _ (keyed_customer (keyed_string _))

-- == hidden

/-- A place some listed path leads to. -/
def Listed (payload : Json) (fields : List String) (place : List String) : Prop :=
  ∃ path ∈ fields, payload.resolve path = some place

/-- A place some listed path leads to, inside no other such place. -/
structure Outermost (payload : Json) (fields : List String) (place : List String) : Prop where
  listed : Listed payload fields place
  outer : ∀ outer, Listed payload fields outer → outer <+: place → outer = place

/-- Every listed place is inside an outermost one. -/
theorem exists_outermost {payload : Json} {fields place : List String}
    (h : Listed payload fields place) :
    ∃ outer, Outermost payload fields outer ∧ outer <+: place := by
  induction hn : place.length using Nat.strongRecOn generalizing place with
  | ind n ih =>
      by_cases hinside : ∃ outer, Listed payload fields outer ∧ outer <+: place ∧ outer ≠ place
      · obtain ⟨outer, hlisted, hbegins, hne⟩ := hinside
        have hle := hbegins.length_le
        have hlen : outer.length ≠ place.length := fun hlen => hne (hbegins.eq_of_length hlen)
        obtain ⟨outermost, hout, hin⟩ := ih outer.length (by omega) hlisted rfl
        exact ⟨outermost, hout, hin.trans hbegins⟩
      · refine ⟨place, ⟨h, fun outer hlisted hbegins => ?_⟩, List.prefix_rfl⟩
        exact Classical.byContradiction fun hne => hinside ⟨outer, hlisted, hbegins, hne⟩

/-- What a redaction shows: what is at no place taken as it was, and the
replacement at the places taken. -/
structure Redaction.Shows (payload : Json) (r : Redaction) : Prop where
  keyed : r.redacted.Keyed
  kept : ∀ location, (∀ taken ∈ r.found, ∀ place, payload.resolve taken = some place →
      ¬ keys place <+: location) →
    r.redacted.shapeAt location = payload.shapeAt location
  replaced : ∀ taken ∈ r.found, ∀ place, payload.resolve taken = some place →
    (∀ other ∈ r.found, ∀ outer, payload.resolve other = some outer →
      outer <+: place → outer = place) →
    r.redacted.get? (keys place) = some (.string redactedFieldValue)

/-- The keys of a place under those of another. -/
theorem keys_begin {place place' : List String} :
    keys place <+: keys place' ↔ place <+: place' := by
  unfold keys
  exact List.prefix_map_iff_of_injective fun a b h => Json.Step.key.inj h

/-- Before the first field everything is as it was. -/
theorem Redaction.Shows.start {payload : Json} (h : payload.Keyed) :
    Shows payload ⟨payload, [], []⟩ :=
  ⟨h, fun _ _ => rfl, fun _ htaken => by simp at htaken⟩

/-- One more field shows the replacement. -/
theorem Redaction.Shows.redactField {payload : Json} {r : Redaction} (htracks : Tracks payload r)
    (h : Shows payload r) (field : String) : Shows payload (redactField r field) := by
  obtain ⟨heq, _⟩ | ⟨here, value, _, hhere, heq⟩ := redactField_cases r field
  · rw [heq]
    exact h
  · rw [heq]
    have hbefore : payload.resolve field = some here :=
      ((htracks.resolves field here).1 hhere).1
    have hreach := (resolve_reaches hhere).2
    have hlast : field ∈ r.found ++ [field] :=
      List.mem_append_right _ (List.mem_singleton_self _)
    refine ⟨(keyed_string _).put here h.keyed, fun location hout => ?_,
      fun taken htaken place hplace houter => ?_⟩
    · dsimp only at hout ⊢
      rw [shapeAt_put here _ _ (hout field hlast here hbefore)]
      exact h.kept location fun taken htaken => hout taken (List.mem_append_left _ htaken)
    · dsimp only at htaken houter ⊢
      by_cases hinside : here <+: place
      · rw [← houter field hlast here hbefore hinside]
        exact get?_put hreach
      · have htaken : taken ∈ r.found := by
          rcases List.mem_append.1 htaken with htaken | htaken
          · exact htaken
          · rw [List.mem_singleton.1 htaken, hbefore] at hplace
            exact absurd (Option.some.inj hplace ▸ List.prefix_rfl) hinside
        have hold := h.replaced taken htaken place hplace fun other hother =>
          houter other (List.mem_append_left _ hother)
        -- the replacement just made is elsewhere, and a string's shape is the string
        have hshape : (r.redacted.put here (.string redactedFieldValue)).shapeAt (keys place)
            = r.redacted.shapeAt (keys place) :=
          shapeAt_put here r.redacted (keys place) fun hbegins => hinside (keys_begin.1 hbegins)
        unfold shapeAt at hshape
        rw [hold, Option.map_some, Option.map_eq_some_iff] at hshape
        obtain ⟨value, hvalue, hstring⟩ := hshape
        rw [hvalue, eq_string_of_shape hstring]

/-- All fields show the replacement. -/
theorem Redaction.Shows.redact {payload : Json} (fields : List String) {r : Redaction}
    (htracks : Tracks payload r) (h : Shows payload r) :
    Shows payload (fields.foldl Hammerwork.redactField r) := by
  induction fields generalizing r with
  | nil => exact h
  | cons field fields ih => exact ih (htracks.redactField field) (h.redactField htracks field)

/-- A run takes every outermost place. -/
theorem outermost_found {payload : Json} {fields place : List String}
    (h : Outermost payload fields place) :
    ∃ taken ∈ (fields.foldl redactField ⟨payload, [], []⟩).found,
      payload.resolve taken = some place := by
  obtain ⟨⟨path, hpath, hplace⟩, houter⟩ := h
  refine ⟨path, ?_, hplace⟩
  obtain ⟨before, after, rfl⟩ := List.append_of_mem hpath
  rw [List.foldl_append, List.foldl_cons]
  refine mem_found_redact after ((found_or_missed _ path).resolve_right fun hmissed => ?_)
  -- passed over although nothing around its place was taken
  have htracks := ((Redaction.Tracks.start payload).redact before).redactField path
  have hsub : ∀ taken ∈ (redactField (before.foldl redactField ⟨payload, [], []⟩) path).found,
      taken ∈ before ++ path :: after := by
    intro taken htaken
    have hfound := found_subset_redact (before ++ [path]) ⟨payload, [], []⟩ taken
      (by rw [List.foldl_append]; exact htaken)
    rcases hfound with hnone | hlisted
    · simp at hnone
    · rcases List.mem_append.1 hlisted with hlisted | hlisted
      · exact List.mem_append_left _ hlisted
      · rw [List.mem_singleton.1 hlisted]
        exact hpath
  have hresolves := (htracks.resolves path place).2 ⟨hplace, fun taken htaken outer hout =>
    houter outer ⟨taken, hsub taken htaken, hout⟩⟩
  rw [hmissed.2] at hresolves
  simp at hresolves

/-- What the clear payload is made of. -/
theorem shown {payload : Json} (hkeyed : payload.Keyed) (fields : List String) :
    (fields.foldl redactField ⟨payload, [], []⟩).redacted.Keyed ∧
      (∀ location, (∀ place, Outermost payload fields place → ¬ keys place <+: location) →
        (fields.foldl redactField ⟨payload, [], []⟩).redacted.shapeAt location
          = payload.shapeAt location) ∧
      ∀ place, Outermost payload fields place →
        (fields.foldl redactField ⟨payload, [], []⟩).redacted.get? (keys place)
          = some (.string redactedFieldValue) := by
  have hshows := (Redaction.Shows.start hkeyed).redact fields (Redaction.Tracks.start payload)
  have hlisted : ∀ taken ∈ (fields.foldl redactField ⟨payload, [], []⟩).found, taken ∈ fields :=
    fun taken htaken => (found_subset_redact fields _ taken htaken).resolve_left (by simp)
  refine ⟨hshows.keyed, fun location hout => ?_, fun place hplace => ?_⟩
  · refine hshows.kept location fun taken htaken place hplace hbegins => ?_
    obtain ⟨outer, houter, hin⟩ := exists_outermost ⟨taken, hlisted taken htaken, hplace⟩
    exact hout outer houter ((keys_begin.2 hin).trans hbegins)
  · obtain ⟨taken, htaken, hresolve⟩ := outermost_found hplace
    exact hshows.replaced taken htaken place hresolve fun other hother outer hresolve =>
      hplace.outer outer ⟨other, hlisted other hother, hresolve⟩

/-- The clear payloads of two payloads with the same outermost listed
places, and the same shape outside them, are the same. -/
theorem redaction_hides (members members' : List (String × Json)) (fields : List String)
    (hkeyed : (object members).Keyed) (hkeyed' : (object members').Keyed)
    (hplaces : ∀ place, Outermost (.object members) fields place ↔
      Outermost (.object members') fields place)
    (hsame : ∀ location,
      (∀ place, Outermost (.object members) fields place → ¬ keys place <+: location) →
        (object members).shapeAt location = (object members').shapeAt location) :
    ∃ clear removed found removed' found',
      redactFields (.object members) fields = .ok (clear, removed, found) ∧
        redactFields (.object members') fields = .ok (clear, removed', found') := by
  obtain ⟨hclear, hkept, hreplaced⟩ := shown hkeyed fields
  obtain ⟨hclear', hkept', hreplaced'⟩ := shown hkeyed' fields
  have heq : (fields.foldl redactField ⟨object members, [], []⟩).redacted
      = (fields.foldl redactField ⟨object members', [], []⟩).redacted := by
    refine eq_of_shapeAt hclear hclear' fun location => ?_
    by_cases hin : ∃ place, Outermost (.object members) fields place ∧ keys place <+: location
    · obtain ⟨place, hplace, rest, rfl⟩ := hin
      unfold shapeAt
      rw [get?_append, get?_append, hreplaced place hplace,
        hreplaced' place ((hplaces place).1 hplace)]
    · have hout : ∀ place, Outermost (.object members) fields place → ¬ keys place <+: location :=
        fun place hplace hbegins => hin ⟨place, hplace, hbegins⟩
      rw [hkept location hout, hsame location hout,
        hkept' location fun place hplace => hout place ((hplaces place).2 hplace)]
  exact ⟨_, _, _, _, _, rfl, by rw [heq]; rfl⟩

/-- An address in parts. -/
def addressParts : Json := .object [("domain", .string "example.org")]

/-- The only outermost place, whatever the address. -/
theorem outermost_customer {email : Json} {place : List String} :
    Outermost (customer email) ["contact.email.domain", "contact.email"] place ↔
      place = ["contact", "email"] := by
  have hdomain : ∀ place, (customer email).resolve "contact.email.domain" = some place →
      place = ["contact", "email", "domain"] := by
    intro place h
    have hsplit : ("contact.email.domain".toList.splitOn '.').map String.ofList
        = ["contact", "email", "domain"] := by decide
    unfold resolve customer at h
    simp only [hsplit] at h
    split at h
    case isTrue hkey => simp at hkey
    case isFalse =>
      split at h
      case isTrue => exact (Option.some.inj h).symm
      case isFalse => simp at h
  have hemail : (customer email).resolve "contact.email" = some ["contact", "email"] := by
    have hsplit : ("contact.email".toList.splitOn '.').map String.ofList
        = ["contact", "email"] := by decide
    have hflat : ¬ ((([("name", .string "Ann"), ("contact", .object [("email", email)])] :
        List (String × Json)).lookup "contact.email").isSome = true) := by simp
    unfold resolve customer
    dsimp only
    rw [if_neg hflat, hsplit]
    rfl
  have hlisted : Listed (customer email) ["contact.email.domain", "contact.email"]
      ["contact", "email"] := ⟨_, by simp, hemail⟩
  have hinside : ∀ outer,
      Listed (customer email) ["contact.email.domain", "contact.email"] outer →
        ["contact", "email"] <+: outer := by
    intro outer h
    obtain ⟨path, hpath, hresolve⟩ := h
    simp only [List.mem_cons, List.not_mem_nil, or_false] at hpath
    rcases hpath with rfl | rfl
    · rw [hdomain outer hresolve]
      decide
    · rw [hemail] at hresolve
      cases hresolve
      exact List.prefix_rfl
  constructor
  · exact fun h => (h.outer _ hlisted (hinside place h.listed)).symm
  · intro h
    subst h
    refine ⟨hlisted, fun outer houter hbegins => ?_⟩
    have hle := hbegins.length_le
    have hge := (hinside outer houter).length_le
    exact hbegins.eq_of_length (by omega)

theorem redaction_hides_address :
    ∃ clear removed found removed' found',
      redactFields (customer (.string "ann@example.org"))
          ["contact.email.domain", "contact.email"] = .ok (clear, removed, found) ∧
        redactFields (customer addressParts)
          ["contact.email.domain", "contact.email"] = .ok (clear, removed', found') :=
  redaction_hides _ _ _ (keyed_customer (keyed_string _))
    (keyed_customer (keyed_object (by simp) (by simpa using keyed_string _)))
    (fun place => outermost_customer.trans outermost_customer.symm)
    (fun location hout => (shapeAt_put ["contact", "email"] (customer (.string "ann@example.org"))
      location (hout _ (outermost_customer.2 rfl))).symm)

end Hammerwork
