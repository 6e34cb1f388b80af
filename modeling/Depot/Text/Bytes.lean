/-! The length of text in bytes. -/

namespace Depot.Text

def byteCount : List Char → Nat
  | [] => 0
  | c :: cs => c.utf8Size + byteCount cs

end Depot.Text
