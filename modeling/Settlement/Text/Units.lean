/-!
# Order by UTF-16 code units

Item ids are ranked by their UTF-16 code units, not by code points: a character beyond U+FFFF is
compared through its surrogate pair, and so comes before U+E000 to U+FFFF. Any two ids can be
compared (`unitsLE_total`), and the order is transitive (`unitsLE_trans`).
-/

namespace Settlement.Text

/-- The UTF-16 code units of a character: itself, or a surrogate pair beyond U+FFFF. -/
def charUnits (c : Char) : List Nat :=
  if c.toNat < 0x10000 then [c.toNat]
  else [0xD800 + (c.toNat - 0x10000) / 0x400, 0xDC00 + (c.toNat - 0x10000) % 0x400]

/-- The UTF-16 code units of a text. -/
def units (s : String) : List Nat := s.toList.flatMap charUnits

/-- The order of two texts by their code units. -/
def unitsCompare (s t : String) : Ordering := List.compareLex compare (units s) (units t)

/-- The text `s` does not come after `t` in the order of code units. -/
def unitsLE (s t : String) : Bool := (unitsCompare s t).isLE

theorem unitsCompare_swap (s t : String) : unitsCompare s t = (unitsCompare t s).swap :=
  @Std.OrientedCmp.eq_swap _ (List.compareLex compare) _ (units s) (units t)

/-- Of two texts, one does not come after the other. -/
theorem unitsLE_total (s t : String) : unitsLE s t = true ∨ unitsLE t s = true := by
  unfold unitsLE
  rw [unitsCompare_swap s t]
  cases unitsCompare t s <;> simp

theorem unitsLE_trans {s t u : String} (hst : unitsLE s t = true) (htu : unitsLE t u = true) :
    unitsLE s u = true :=
  @Std.TransCmp.isLE_trans _ (List.compareLex compare) _ (units s) (units t) (units u) hst htu

end Settlement.Text
