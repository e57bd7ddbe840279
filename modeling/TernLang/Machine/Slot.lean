import TernLang.Decimal.Shortest

/-! Values of a running program. -/
namespace TernLang.Machine

/-- Integers and addresses are words; an aggregate lists its parts. -/
inductive Slot where
  | void
  | int (word : UInt64)
  | float (val : Binary64)
  | pointer (addr : UInt64)
  | aggregate (items : List Slot)
deriving Inhabited

namespace Slot

mutual

/-- How diagnostics show a value. -/
def text : Slot → String
  | void => "Void"
  | int word => "Int(" ++ toString word.toNat ++ ")"
  | float val => "Float(" ++ val.text ++ ")"
  | pointer addr => "Ptr(" ++ toString addr.toNat ++ ")"
  | aggregate items => "Aggregate([" ++ textList items ++ "])"

def textList : List Slot → String
  | [] => ""
  | [item] => item.text
  | item :: items => item.text ++ ", " ++ textList items

end

end Slot
end TernLang.Machine
