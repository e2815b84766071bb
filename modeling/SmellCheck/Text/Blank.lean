/-!
White space in the sense of the Unicode White_Space property, and trimming by it.
-/

set_option autoImplicit false

namespace SmellCheck.Text

def isBlank (ch : Char) : Bool :=
  let code := ch.toNat
  (0x9 ≤ code && code ≤ 0xd) || code == 0x20 || code == 0x85 || code == 0xa0 || code == 0x1680 ||
    (0x2000 ≤ code && code ≤ 0x200a) || code == 0x2028 || code == 0x2029 || code == 0x202f ||
    code == 0x205f || code == 0x3000

def trimWhere {α : Type} (drop : α → Bool) (items : List α) : List α :=
  ((items.dropWhile drop).reverse.dropWhile drop).reverse

def trim (text : String) : String := .ofList (trimWhere isBlank text.toList)

def isBlankText (text : String) : Bool := text.toList.all isBlank

theorem trim_where_sublist {α : Type} (drop : α → Bool) (items : List α) : (trimWhere drop items).Sublist items := by
  have fromBack := (List.dropWhile_sublist drop (l := (items.dropWhile drop).reverse)).reverse
  rw [List.reverse_reverse] at fromBack
  exact fromBack.trans (List.dropWhile_sublist drop)

end SmellCheck.Text
