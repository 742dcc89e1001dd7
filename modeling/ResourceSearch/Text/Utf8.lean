/-!
Text as bytes.  `ofBytes?` reads back exactly what `bytes` writes (`ofBytes?_bytes`) and refuses
byte lists that are not UTF-8.
-/

namespace ResourceSearch
namespace Text

def bytes (cs : List Char) : List UInt8 := cs.flatMap String.utf8EncodeChar

/-- The text that a byte list writes in UTF-8, if it does. -/
def ofBytes? (bs : List UInt8) : Option String := String.fromUTF8? bs.toByteArray

def byteLength (cs : List Char) : Nat := cs.foldl (fun n c => n + c.utf8Size) 0

theorem toByteArray_bytes (cs : List Char) :
    (bytes cs).toByteArray = (String.ofList cs).toByteArray := by
  simp [bytes, List.utf8Encode]

theorem ofBytes?_bytes (cs : List Char) : ofBytes? (bytes cs) = some (String.ofList cs) := by
  have h : (bytes cs).toByteArray.IsValidUTF8 :=
    toByteArray_bytes cs ▸ (String.ofList cs).isValidUTF8
  rw [ofBytes?, String.fromUTF8?, dif_pos h]
  exact congrArg some (String.toByteArray_inj.mp (toByteArray_bytes cs))

/-- A byte list that reads as a text is the bytes of that text. -/
theorem bytes_of_ofBytes? {bs : List UInt8} {s : String} (h : ofBytes? bs = some s) :
    bytes s.toList = bs := by
  unfold ofBytes? String.fromUTF8? at h
  split at h
  · have hs : s.toByteArray = bs.toByteArray := by
      rw [← Option.some.inj h]
      rfl
    have ht : (bytes s.toList).toByteArray = bs.toByteArray := by
      rw [toByteArray_bytes, String.ofList_toList, hs]
    have := congrArg (·.data.toList) ht
    simpa using this
  · cases h

end Text
end ResourceSearch
