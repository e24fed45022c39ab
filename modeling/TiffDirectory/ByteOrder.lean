/-!
# ByteOrder — which end of an integer is stored first, and the mark that says so

A directory stores all its integers in one order, and the file that holds it opens with two bytes
naming that order: `II` for the lowest byte first, `MM` for the highest.  Main statement:
`ofMark?_eq_some_iff`, the two marks are the only ones.
-/

namespace TiffDirectory

/-- The order in which the bytes of an integer are stored. -/
inductive ByteOrder where
  /-- lowest byte first -/
  | little
  /-- highest byte first -/
  | big
  deriving DecidableEq, Repr

namespace ByteOrder

/-- The order in which a word lies in memory. -/
def native : ByteOrder := .little

/-- The two bytes that open a file whose integers are stored in this order: `II` or `MM`. -/
def mark : ByteOrder → Vector UInt8 2
  | .little => #v[0x49, 0x49]
  | .big => #v[0x4D, 0x4D]

/-- The order that two bytes name, if they are a mark. -/
def ofMark? (bytes : Vector UInt8 2) : Option ByteOrder :=
  if bytes = mark .little then some .little
  else if bytes = mark .big then some .big
  else none

@[simp] theorem ofMark?_mark (order : ByteOrder) : ofMark? order.mark = some order := by
  cases order <;> rfl

/-- **Two bytes name an order exactly when they are its mark.** -/
theorem ofMark?_eq_some_iff {bytes : Vector UInt8 2} {order : ByteOrder} :
    ofMark? bytes = some order ↔ bytes = order.mark := by
  constructor
  · unfold ofMark?
    split
    · rintro ⟨⟩; assumption
    · split
      · rintro ⟨⟩; assumption
      · simp
  · rintro rfl
    exact ofMark?_mark order

end ByteOrder

end TiffDirectory
