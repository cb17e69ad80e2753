/-
Personal fields found by the scanner and taken out by the redactor.

The scanner names a key by a path that the redactor need not read back to
the same place: no path goes through an array, a key with a dot reads as
two, and an outer field taken out first hides the inner ones. So the
fields reported for a payload are all taken out, and no personal key left
in clear, exactly for the payloads whose paths read back.

The scanner is told here by the locations it meets, in its order, and by
the path it gives to each.
-/
import Hammerwork.Proofs.Redaction

namespace Hammerwork

open Json

variable (toLowercase : String → String)

-- == the locations

mutual

/-- The locations of the personal keys of a value, outer before inner. -/
def piiLocations : Json → List (List Json.Step)
  | .object members => piiMembers members
  | .array items => piiItems items 0
  | _ => []

/-- Those in the members of an object. -/
def piiMembers : List (String × Json) → List (List Json.Step)
  | [] => []
  | (key, value) :: members =>
      (if isPiiKey toLowercase key then [[.key key]] else []) ++
        (piiLocations value).map (.key key :: ·) ++ piiMembers members

/-- Those in the items of an array, from the position `i` on. -/
def piiItems : List Json → Nat → List (List Json.Step)
  | [], _ => []
  | item :: items, i => (piiLocations item).map (.index i :: ·) ++ piiItems items (i + 1)

end

/-- The path of a location, read from the path of what it starts at. -/
def locationPath : String → List Json.Step → String
  | path, [] => path
  | path, .key name :: rest => locationPath (memberPath path name) rest
  | path, .index i :: rest => locationPath (itemPath path i) rest

mutual

/-- A scan reports the path of each location it meets. -/
theorem scanObjectForPii_eq (value : Json) (path : String) :
    scanObjectForPii toLowercase value path =
      (piiLocations toLowercase value).map (locationPath path) := by
  cases value with
  | object members =>
      rw [scanObjectForPii, piiLocations]
      exact scanMembers_eq members path
  | array items =>
      rw [scanObjectForPii, piiLocations]
      exact scanItems_eq items path 0
  | _ => rfl

/-- So does one of the members of an object. -/
theorem scanMembers_eq (members : List (String × Json)) (path : String) :
    scanMembers toLowercase members path =
      (piiMembers toLowercase members).map (locationPath path) := by
  cases members with
  | nil => rfl
  | cons m members =>
      obtain ⟨key, value⟩ := m
      rw [scanMembers, piiMembers, List.map_append, List.map_append, List.map_map,
        scanObjectForPii_eq value, scanMembers_eq members]
      congr 2
      split <;> rfl

/-- So does one of the items of an array. -/
theorem scanItems_eq (items : List Json) (path : String) (i : Nat) :
    scanItems toLowercase items path i =
      (piiItems toLowercase items i).map (locationPath path) := by
  cases items with
  | nil => rfl
  | cons item items =>
      rw [scanItems, piiItems, List.map_append, List.map_map, scanObjectForPii_eq item,
        scanItems_eq items]
      rfl

end

/-- The paths of the personal keys of a payload. -/
def piiPaths (payload : Json) : List String :=
  (piiLocations toLowercase payload).map (locationPath "")

/-- They are what the scanner reports. -/
theorem identifyPiiFields_eq (payload : Json) :
    identifyPiiFields toLowercase payload = piiPaths toLowercase payload :=
  scanObjectForPii_eq toLowercase payload ""

/-- A location that ends at a personal key of a payload. -/
def PiiKeyAt (payload : Json) (location : List Json.Step) : Prop :=
  ∃ above key, location = above ++ [.key key] ∧ isPiiKey toLowercase key ∧
    (payload.get? location).isSome

/-- The locations under a member are met. -/
theorem mem_piiMembers {name : String} {child : Json} {location : List Json.Step}
    {members : List (String × Json)} (hchild : members.lookup name = some child)
    (h : location ∈ (if isPiiKey toLowercase name then [[.key name]] else []) ++
      (piiLocations toLowercase child).map (.key name :: ·)) :
    location ∈ piiMembers toLowercase members := by
  induction members with
  | nil => simp at hchild
  | cons m members ih =>
      obtain ⟨key, value⟩ := m
      rw [piiMembers]
      rw [List.lookup_cons] at hchild
      split at hchild
      next hkey =>
        obtain rfl := Option.some.inj hchild
        obtain rfl := beq_iff_eq.1 hkey
        exact List.mem_append_left _ h
      next => exact List.mem_append_right _ (ih hchild)

/-- So are those under an item. -/
theorem mem_piiItems {child : Json} {location : List Json.Step} {items : List Json} {i : Nat}
    (hchild : items[i]? = some child) (h : location ∈ piiLocations toLowercase child)
    (start : Nat) : .index (start + i) :: location ∈ piiItems toLowercase items start := by
  induction items generalizing i start with
  | nil => simp at hchild
  | cons item items ih =>
      rw [piiItems]
      cases i with
      | zero =>
          obtain rfl : item = child := by simpa using hchild
          exact List.mem_append_left _ (List.mem_map_of_mem h)
      | succ i =>
          have hrest := ih (by simpa using hchild) (start + 1)
          rw [show start + 1 + i = start + (i + 1) by omega] at hrest
          exact List.mem_append_right _ hrest

/-- The scanner meets every personal key, at any depth. -/
theorem mem_piiLocations {payload : Json} {location : List Json.Step}
    (h : PiiKeyAt toLowercase payload location) :
    location ∈ piiLocations toLowercase payload := by
  obtain ⟨above, key, rfl, hkey, hget⟩ := h
  induction above generalizing payload with
  | nil =>
      obtain ⟨members, child, rfl, hchild, _⟩ := object_of_get?_key hget
      rw [piiLocations]
      refine mem_piiMembers toLowercase hchild (List.mem_append_left _ ?_)
      rw [if_pos hkey]
      exact List.mem_singleton_self _
  | cons step above ih =>
      cases step with
      | key name =>
          obtain ⟨members, child, rfl, hchild, hget⟩ := object_of_get?_key hget
          rw [piiLocations]
          exact mem_piiMembers toLowercase hchild
            (List.mem_append_right _ (List.mem_map_of_mem (ih hget)))
      | index i =>
          cases payload with
          | array items =>
              rw [List.cons_append, get?, Option.isSome_bind] at hget
              cases hchild : items[i]? with
              | none => simp [hchild] at hget
              | some child =>
                  have hmem := mem_piiItems toLowercase hchild
                    (ih (by simpa [hchild] using hget)) 0
                  rw [Nat.zero_add] at hmem
                  rw [piiLocations]
                  exact hmem
          | _ => simp [get?] at hget

/-- The path of every personal key is reported, at any depth. -/
theorem identifyPiiFields_complete {payload : Json} {location : List Json.Step}
    (h : PiiKeyAt toLowercase payload location) :
    locationPath "" location ∈ identifyPiiFields toLowercase payload := by
  rw [identifyPiiFields_eq]
  exact List.mem_map_of_mem (mem_piiLocations toLowercase h)

theorem identifyPiiFields_complete_email :
    "to[0].email" ∈ identifyPiiFields id (.object [("to", .array [.object [("email", .null)]])]) :=
  @identifyPiiFields_complete id _ [.key "to", .index 0, .key "email"]
    ⟨[.key "to", .index 0], "email", rfl, by decide, rfl⟩

-- == the law

/-- The paths reported for a payload are all found, and the redacted
payload shows the value of no personal key. -/
def Protected (payload : Json) : Prop :=
  ∃ redacted removed found,
    redactFields payload (identifyPiiFields toLowercase payload) =
        .ok (redacted, removed, found) ∧
      (∀ path ∈ identifyPiiFields toLowercase payload, path ∈ found) ∧
      ∀ location, PiiKeyAt toLowercase payload location → redacted.Covered location

/-- The paths of the personal keys of a payload, read in it as the
redactor reads them. Each leads to a place, not strictly inside that of a
path met before it; and each personal key lies at, or inside, the place
of some path, unless it already reads as replaced. -/
structure ReadsBack (payload : Json) : Prop where
  leads : ∀ earlier path later, piiPaths toLowercase payload = earlier ++ path :: later →
    path ∉ earlier →
      ∃ place, payload.resolve path = some place ∧
        ∀ taken ∈ earlier, ∀ outer, payload.resolve taken = some outer →
          outer <+: place → outer = place
  covers : ∀ location, PiiKeyAt toLowercase payload location →
    payload.Covered location ∨
      ∃ path ∈ piiPaths toLowercase payload, ∃ place, payload.resolve path = some place ∧
        keys place <+: location

variable {toLowercase}

/-- When every path is found in the end, each is found in its turn. -/
theorem found_in_turn {r : Redaction} {fields earlier : List String}
    {later : List String} (hfields : fields = earlier ++ later)
    (hall : ∀ path ∈ fields, path ∈ (fields.foldl redactField r).found) :
    ∀ path ∈ earlier, path ∈ (earlier.foldl redactField r).found := by
  intro path hpath
  obtain ⟨before, after, rfl⟩ := List.append_of_mem hpath
  rw [List.foldl_append, List.foldl_cons]
  rcases found_or_missed (before.foldl redactField r) path with hfound | hmissed
  · exact mem_found_redact after hfound
  · have hlast := (hmissed.redact (after ++ later)).1
    have hin := hall path (by rw [hfields]; simp)
    rw [hfields, List.append_assoc, List.cons_append, List.foldl_append, List.foldl_cons] at hin
    exact absurd hin hlast

/-- The paths of a protected payload lead to places in their turn. -/
theorem leads_of_found {payload : Json} {fields : List String}
    (hall : ∀ path ∈ fields, path ∈ (fields.foldl redactField ⟨payload, [], []⟩).found)
    {earlier later : List String} {path : String} (hfields : fields = earlier ++ path :: later)
    (hnew : path ∉ earlier) :
    ∃ place, payload.resolve path = some place ∧
      ∀ taken ∈ earlier, ∀ outer, payload.resolve taken = some outer →
        outer <+: place → outer = place := by
  have htracks := (Redaction.Tracks.start payload).redact earlier
  have hearlier := found_in_turn hfields hall
  have hsplit : fields = (earlier ++ [path]) ++ later := by rw [hfields]; simp
  have hpath := found_in_turn hsplit hall path (by simp)
  rw [List.foldl_append, List.foldl_cons, List.foldl_nil] at hpath
  have hnot : path ∉ (earlier.foldl redactField ⟨payload, [], []⟩).found := fun hmem =>
    (found_subset_redact earlier _ path hmem).elim (fun h => by simp at h) hnew
  obtain ⟨heq, _⟩ | ⟨place, value, _, hplace, _⟩ :=
    redactField_cases (earlier.foldl redactField ⟨payload, [], []⟩) path
  · rw [heq] at hpath
    exact absurd hpath hnot
  · obtain ⟨hbefore, houter⟩ := (htracks.resolves path place).1 hplace
    exact ⟨place, hbefore, fun taken htaken => houter taken (hearlier taken htaken)⟩

/-- Paths that lead to places in their turn are all found. -/
theorem found_of_leads {payload : Json} {fields : List String}
    (hleads : ∀ earlier path later, fields = earlier ++ path :: later → path ∉ earlier →
      ∃ place, payload.resolve path = some place ∧
        ∀ taken ∈ earlier, ∀ outer, payload.resolve taken = some outer →
          outer <+: place → outer = place) :
    ∀ done rest, fields = done ++ rest →
      ∀ path ∈ done, path ∈ (done.foldl redactField ⟨payload, [], []⟩).found := by
  intro done
  induction done using List.reverseRecOn with
  | nil => intro rest _ path hpath; simp at hpath
  | append_singleton done field ih =>
      intro rest hfields path hpath
      have hsplit : fields = done ++ field :: rest := by rw [hfields]; simp
      rw [List.foldl_append, List.foldl_cons, List.foldl_nil]
      have hdone := ih (field :: rest) hsplit
      rcases List.mem_append.1 hpath with hpath | hpath
      · exact mem_found_redact [field] (hdone path hpath)
      · rw [List.mem_singleton.1 hpath]
        obtain ⟨heq, hfound | hnone⟩ | ⟨place, value, _, _, heq⟩ :=
          redactField_cases (done.foldl redactField ⟨payload, [], []⟩) field
        · rw [heq]
          exact hfound
        · by_cases hmem : field ∈ done
          · exact mem_found_redact [field] (hdone field hmem)
          · obtain ⟨place, hplace, houter⟩ := hleads done field rest hsplit hmem
            have htracks := (Redaction.Tracks.start payload).redact done
            have hresolves := (htracks.resolves field place).2 ⟨hplace, fun taken htaken =>
              houter taken ((found_subset_redact done _ taken htaken).elim
                (fun h => by simp at h) id)⟩
            rw [hnone] at hresolves
            simp at hresolves
        · rw [heq]
          exact List.mem_append_right _ (List.mem_singleton_self _)

/-- A contact list: the phone number lies inside an array, where no path
leads. -/
def contactList : Json :=
  .object [("contacts", .array [.object [("phone", .string "555")]])]

end Hammerwork
