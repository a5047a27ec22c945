import CasperNodeProxy.Lib.JsonText
import CasperNodeProxy.Rpc.Proxy

/-!
# A reader of JSON texts in UTF-8

An instance of the `serde_json` parameter: numbers are kept as they are written, a value is written
without blanks, and a text is read if it is valid UTF-8 and a JSON text that does not nest too deep.

* `textJsonOf`, **`textJsonOf_lawful`**: the instance, for both kinds of maps, and that a value
  survives it; `textJson`: the one with key-ordered maps.
* `fromSlice_jsonBytes`: what is read of the bytes that are written.
* `utf8Bytes_plain`: a text without control characters is one without control bytes.
-/

namespace CasperNodeProxy

open Wire

/-- The bytes of a text. -/
def utf8Bytes (cs : List Char) : Bytes := (String.ofList cs).toByteArray.data.toList

/-- The text of bytes, if they are UTF-8. -/
def utf8Chars (b : Bytes) : Option (List Char) :=
  if h : (ByteArray.mk b.toArray).IsValidUTF8 then
    some (String.fromUTF8 (ByteArray.mk b.toArray) h).toList
  else none

theorem utf8Chars_utf8Bytes (cs : List Char) : utf8Chars (utf8Bytes cs) = some cs := by
  have hb : ByteArray.mk (utf8Bytes cs).toArray = (String.ofList cs).toByteArray := by
    rw [utf8Bytes, Array.toArray_toList]
  unfold utf8Chars
  rw [dif_pos (by rw [hb]; exact (String.ofList cs).isValidUTF8)]
  have hs : ∀ h, String.fromUTF8 (ByteArray.mk (utf8Bytes cs).toArray) h = String.ofList cs := by
    rw [hb]
    exact fun _ => rfl
  rw [hs, String.toList_ofList]

theorem utf8Bytes_eq (cs : List Char) : utf8Bytes cs = cs.flatMap String.utf8EncodeChar := by
  rw [utf8Bytes, String.toByteArray_ofList]
  simp [List.utf8Encode]

theorem utf8EncodeChar_plain {c : Char} (h : 32 ≤ c.toNat) :
    ∀ b ∈ String.utf8EncodeChar c, 32 ≤ b := by
  have hv : c.val.toNat = c.toNat := rfl
  intro b hb
  rw [UInt8.le_iff_toNat_le]
  change 32 ≤ b.toNat
  unfold String.utf8EncodeChar at hb
  dsimp only at hb
  rw [hv] at hb
  -- a byte of a longer encoding has its high bit set
  split_ifs at hb
  all_goals
    simp only [List.mem_cons, List.not_mem_nil, or_false] at hb
    rcases hb with rfl | rfl | rfl | rfl
  all_goals
    rw [UInt8.toNat_ofNat']
    omega

theorem utf8Bytes_plain {cs : List Char} (h : JsonText.Plain cs) : ∀ b ∈ utf8Bytes cs, 32 ≤ b := by
  intro b hb
  rw [utf8Bytes_eq] at hb
  obtain ⟨c, hc, hb⟩ := List.mem_flatMap.mp hb
  exact utf8EncodeChar_plain (h c hc) b hb

/-- The bytes of a tree. -/
def jsonBytes (j : JsonText.Tree) : Bytes := utf8Bytes (JsonText.write j)

/-- The number in decimal digits. -/
def decimal (i : ℤ) : JsonText.Lexeme :=
  if h : JsonText.isNumber (toString i).toList = true then ⟨_, h⟩ else ⟨['0'], by decide⟩

/-- The reader and the writer, with maps that keep this order. -/
def textJsonOf (order : Members.Order) : SerdeJson where
  Number := JsonText.Lexeme
  Error := Unit
  order := order
  number := decimal
  read b := match (utf8Chars b).bind JsonText.read with
    | some j => if j.depth < recursionLimit then .ok j else .error ()
    | none => .error ()
  toVec j := .ok (jsonBytes j)
  toString := jsonBytes
  display _ := "expected value at line 1 column 1"

/-- The reader and the writer, with key-ordered maps. -/
abbrev textJson : SerdeJson := textJsonOf .byKey

variable {o : Members.Order}

theorem read_jsonBytes {j : JsonText.Tree} (hj : j.depth < recursionLimit) :
    (textJsonOf o).read (jsonBytes j) = .ok j := by
  have h : (utf8Chars (jsonBytes j)).bind JsonText.read = some j := by
    rw [jsonBytes, utf8Chars_utf8Bytes, Option.bind_some, JsonText.read_write]
  simp only [textJsonOf, h, if_pos hj]

theorem fromSlice_jsonBytes {j : JsonText.Tree} (hj : j.depth < recursionLimit) :
    (textJsonOf o).fromSlice (jsonBytes j) = .ok (j.collapse o) := by
  rw [SerdeJson.fromSlice, read_jsonBytes hj]
  rfl

theorem fromSlice_ordered {v : JsonText.Tree} (hv : v.Ordered o) (hd : v.depth < recursionLimit) :
    (textJsonOf o).fromSlice (jsonBytes v) = .ok v :=
  (fromSlice_jsonBytes hd).trans (congrArg _ (Json.collapse_of_ordered hv))

/-- **A value survives.** -/
theorem textJsonOf_lawful (o : Members.Order) : (textJsonOf o).Lawful where
  limited body t h := by
    simp only [textJsonOf] at h
    split at h
    · split_ifs at h with hd
      cases h
      exact hd
    · cases h
  survives v hv hd := ⟨jsonBytes v, rfl, fromSlice_ordered hv hd⟩

theorem textJson_lawful : textJson.Lawful := textJsonOf_lawful .byKey

end CasperNodeProxy
