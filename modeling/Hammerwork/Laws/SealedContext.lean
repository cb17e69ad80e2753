/-
The context a sealed payload is bound to.

The associated data of a job is a text of its own, then the job's id, queue
name, key id and algorithm, then its two lists of fields, each value with
its length before it. Lengths take eight bytes. So values shorter than
2^64 are self-delimiting one by one, and with them the whole: two contexts
with the same associated data are the same context, and the data of one
does not begin with the data of another.
-/
import Hammerwork.Lib.Delimiting
import Hammerwork.Sealing
import Mathlib.Tactic.Ring

namespace Hammerwork

namespace Sealing

open Archive Delimiting

-- == the bytes

@[simp] theorem length_toBeBytes (width n : Nat) : (toBeBytes width n).length = width := by
  simp [toBeBytes]

/-- The first byte is the most significant one. -/
theorem toBeBytes_succ (width n : Nat) :
    toBeBytes (width + 1) n = UInt8.ofNat (n / 256 ^ width) :: toBeBytes width n := by
  unfold toBeBytes
  rw [List.range_succ_eq_map, List.map_cons, List.map_map]
  refine congrArg₂ List.cons (by simp) (List.map_congr_left fun i hi => ?_)
  have hindex : width + 1 - 1 - (i + 1) = width - 1 - i := by omega
  show UInt8.ofNat (n / 256 ^ (width + 1 - 1 - (i + 1))) = _
  rw [hindex]

/-- As many bytes tell the number's remainder. -/
theorem mod_eq_of_toBeBytes {width n m : Nat} (h : toBeBytes width n = toBeBytes width m) :
    n % 256 ^ width = m % 256 ^ width := by
  induction width with
  | zero => simp [Nat.mod_one]
  | succ width ih =>
      rw [toBeBytes_succ, toBeBytes_succ, List.cons.injEq] at h
      have hfirst : n / 256 ^ width % 256 = m / 256 ^ width % 256 := by
        simpa using congrArg UInt8.toNat h.1
      have hrest := ih h.2
      rw [Nat.pow_succ, Nat.mod_mul, Nat.mod_mul, hfirst, hrest]

/-- Numbers that fit are told by their bytes. -/
theorem delimiting_toBeBytes (width : Nat) :
    SelfDelimiting (· < 256 ^ width) (toBeBytes width) := by
  refine selfDelimiting_of_length (length_toBeBytes width) fun n m hn hm h => ?_
  have hmod := mod_eq_of_toBeBytes h
  rwa [Nat.mod_eq_of_lt hn, Nat.mod_eq_of_lt hm] at hmod

/-- The bytes of a text as a list. -/
theorem toList_eq_data (bytes : ByteArray) : bytes.toList = bytes.data.toList := by
  have hloop : ∀ (n i : Nat) (seen : List UInt8), bytes.size - i = n →
      ByteArray.toList.loop bytes i seen = seen.reverse ++ bytes.data.toList.drop i := by
    intro n
    induction n with
    | zero =>
        intro i seen hn
        have hend : bytes.data.toList.drop i = [] := by
          rw [List.drop_eq_nil_iff, Array.length_toList]
          show bytes.size ≤ i
          omega
        unfold ByteArray.toList.loop
        rw [if_neg (by omega), hend, List.append_nil]
    | succ n ih =>
        intro i seen hn
        have hlt : i < bytes.data.toList.length := by
          rw [Array.length_toList]
          show i < bytes.size
          omega
        have hget : bytes.get! i = bytes.data.toList[i] := by
          have hlt' : i < bytes.data.size := by simpa using hlt
          show bytes.data[i]! = _
          rw [getElem!_pos bytes.data i hlt', Array.getElem_toList]
        unfold ByteArray.toList.loop
        rw [if_pos (by omega), ih (i + 1) _ (by omega), List.reverse_cons, List.append_assoc,
          hget, List.drop_eq_getElem_cons hlt]
        rfl
  have hall := hloop bytes.size 0 [] (Nat.sub_zero _)
  simpa [ByteArray.toList] using hall

/-- A text is told by its bytes. -/
theorem utf8_injective : Function.Injective fun text : String => text.toUTF8.toList := by
  intro a b h
  dsimp only at h
  rw [toList_eq_data, toList_eq_data] at h
  exact String.toByteArray_inj.1 (ByteArray.ext (Array.toList_inj.1 h))

-- == values

/-- A value shorter than 2^64, with its length before it. -/
theorem delimiting_push :
    SelfDelimiting (fun bytes : Bytes => bytes.length < 2 ^ 64) (push []) := by
  have hsize : SelfDelimiting (· < 2 ^ 64) (toBeBytes 8) := delimiting_toBeBytes 8
  exact sized hsize

theorem push_append (out bytes : Bytes) : push out bytes = out ++ push [] bytes := by
  simp [push]

/-- The number of bytes of a text. -/
def textSize (text : String) : Nat := text.toUTF8.toList.length

/-- So is a text. -/
theorem delimiting_pushText :
    SelfDelimiting (fun text : String => textSize text < 2 ^ 64) (pushText []) :=
  delimiting_push.comp utf8_injective fun _ h => h

theorem pushText_append (out : Bytes) (text : String) :
    pushText out text = out ++ pushText [] text :=
  push_append out _

theorem pushList_append (out : Bytes) (items : List String) :
    pushList out items = out ++ (toBeBytes 8 items.length ++ items.flatMap (pushText [])) := by
  have hfold : ∀ (items : List String) (out : Bytes),
      items.foldl pushText out = out ++ items.flatMap (pushText []) := by
    intro items
    induction items with
    | nil => intro out; simp
    | cons item items ih =>
        intro out
        rw [List.foldl_cons, ih, pushText_append, List.flatMap_cons, List.append_assoc]
  unfold pushList
  rw [hfold, List.append_assoc]

/-- And a list of texts, with its length before it. -/
theorem delimiting_pushList :
    SelfDelimiting (fun items : List String => items.length < 2 ^ 64 ∧
      ∀ item ∈ items, textSize item < 2 ^ 64) (pushList []) := by
  have hsize : SelfDelimiting (· < 2 ^ 64) (toBeBytes 8) := delimiting_toBeBytes 8
  have hcode : pushList [] =
      fun items : List String => toBeBytes 8 items.length ++ items.flatMap (pushText []) :=
    funext fun items => pushList_append [] items
  rw [hcode]
  exact counted hsize delimiting_pushText

/-- An id has sixteen bytes. -/
theorem delimiting_id :
    SelfDelimiting (fun id : JobId => id < 2 ^ 128) fun id => push [] (toBeBytes 16 id) := by
  intro a b ha hb rest rest' heq
  have hshort : ∀ id : JobId, (toBeBytes 16 id).length < 2 ^ 64 := fun id => by simp
  obtain ⟨hbytes, hrest⟩ := delimiting_push _ _ (hshort a) (hshort b) _ _ heq
  have hid : SelfDelimiting (· < 2 ^ 128) (toBeBytes 16) := delimiting_toBeBytes 16
  exact ⟨hid.injective ha hb hbytes, hrest⟩

/-- The name of an algorithm tells it. -/
theorem delimiting_algorithm :
    SelfDelimiting (fun _ : EncryptionAlgorithm => True) fun a => pushText [] a.debugStr := by
  have hinj : Function.Injective EncryptionAlgorithm.debugStr := by
    intro a b h
    cases a <;> cases b <;> first | rfl | simp [EncryptionAlgorithm.debugStr] at h
  refine delimiting_pushText.comp hinj fun a _ => ?_
  show textSize a.debugStr < 2 ^ 64
  unfold textSize
  rw [toList_eq_data]
  cases a <;> decide

-- == contexts

/-- What the ciphertext of a job is bound to. -/
structure JobContext where
  jobId : JobId
  queueName : String
  keyId : String
  algorithm : EncryptionAlgorithm
  piiFields : List String
  encryptedFields : List String

/-- The authenticated data of the context. -/
def JobContext.associatedData (c : JobContext) : Bytes :=
  jobAssociatedData c.jobId c.queueName c.keyId c.algorithm c.piiFields c.encryptedFields

/-- An id of 128 bits, and strings and lists shorter than 2^64. -/
structure JobContext.Short (c : JobContext) : Prop where
  jobId : c.jobId < 2 ^ 128
  queueName : textSize c.queueName < 2 ^ 64
  keyId : textSize c.keyId < 2 ^ 64
  piiFields : c.piiFields.length < 2 ^ 64 ∧ ∀ field ∈ c.piiFields, textSize field < 2 ^ 64
  encryptedFields : c.encryptedFields.length < 2 ^ 64 ∧
    ∀ field ∈ c.encryptedFields, textSize field < 2 ^ 64

/-- One value after the other. -/
theorem associatedData_eq (c : JobContext) :
    c.associatedData = pushText [] jobAadContext ++ (push [] (toBeBytes 16 c.jobId) ++
      (pushText [] c.queueName ++ (pushText [] c.keyId ++ (pushText [] c.algorithm.debugStr ++
        (pushList [] c.piiFields ++ pushList [] c.encryptedFields))))) := by
  unfold JobContext.associatedData jobAssociatedData
  dsimp only
  rw [pushList_append, pushList_append, pushText_append _ c.algorithm.debugStr,
    pushText_append _ c.keyId, pushText_append _ c.queueName, push_append,
    pushList_append [] c.piiFields, pushList_append [] c.encryptedFields]
  simp only [List.append_assoc, List.nil_append]

/-- Short contexts are self-delimiting. -/
theorem delimiting_associatedData :
    SelfDelimiting JobContext.Short JobContext.associatedData := by
  intro c d hc hd rest rest' heq
  have hvalues := delimiting_id.pair (delimiting_pushText.pair (delimiting_pushText.pair
    (delimiting_algorithm.pair (delimiting_pushList.pair delimiting_pushList))))
  rw [associatedData_eq, associatedData_eq, List.append_assoc (pushText [] jobAadContext),
    List.append_assoc (pushText [] jobAadContext)] at heq
  obtain ⟨hsame, hrest⟩ := hvalues
    (c.jobId, c.queueName, c.keyId, c.algorithm, c.piiFields, c.encryptedFields)
    (d.jobId, d.queueName, d.keyId, d.algorithm, d.piiFields, d.encryptedFields)
    ⟨hc.jobId, hc.queueName, hc.keyId, trivial, hc.piiFields, hc.encryptedFields⟩
    ⟨hd.jobId, hd.queueName, hd.keyId, trivial, hd.piiFields, hd.encryptedFields⟩
    rest rest' (List.append_cancel_left heq)
  simp only [Prod.mk.injEq] at hsame
  refine ⟨?_, hrest⟩
  cases c
  cases d
  simp only [JobContext.mk.injEq]
  exact hsame

/-- Short contexts with the same authenticated data are the same, and no
context's data properly begins another's. -/
theorem contexts_unambiguous (c d : JobContext) (hc : c.Short) (hd : d.Short) :
    (c.associatedData = d.associatedData → c = d) ∧
      (c.associatedData <+: d.associatedData → c.associatedData = d.associatedData) := by
  refine ⟨delimiting_associatedData.injective hc hd, fun hbegins => ?_⟩
  rw [delimiting_associatedData.eq_of_prefix hc hd hbegins]

/-- A context with a digit in its queue name or in its key id. -/
def digitContext (queueName keyId : String) : JobContext :=
  ⟨1, queueName, keyId, .aes256Gcm, ["ssn"], []⟩

/-- A digit moved from the queue name to the key id makes other data. -/
theorem digit_moved :
    ((digitContext "mail1" "").associatedData = (digitContext "mail" "1").associatedData →
        digitContext "mail1" "" = digitContext "mail" "1") ∧
      ((digitContext "mail1" "").associatedData <+: (digitContext "mail" "1").associatedData →
        (digitContext "mail1" "").associatedData = (digitContext "mail" "1").associatedData) := by
  have hssn : ∀ field ∈ ["ssn"], textSize field < 2 ^ 64 := by
    intro field hfield
    rw [List.mem_singleton.1 hfield]
    unfold textSize
    rw [toList_eq_data]
    decide
  have hnone : ∀ field ∈ ([] : List String), textSize field < 2 ^ 64 := by simp
  have hshort : ∀ name ∈ ["mail1", "mail", "", "1"], textSize name < 2 ^ 64 := by
    unfold textSize
    simp only [toList_eq_data]
    decide
  refine contexts_unambiguous _ _ ⟨by decide, hshort _ (by simp [digitContext]),
    hshort _ (by simp [digitContext]), ⟨by decide, hssn⟩, ⟨by decide, hnone⟩⟩
    ⟨by decide, hshort _ (by simp [digitContext]), hshort _ (by simp [digitContext]),
      ⟨by decide, hssn⟩, ⟨by decide, hnone⟩⟩

end Sealing

end Hammerwork
