/-! How many characters a part of a pattern can match. -/

namespace Unravel.Regexp

structure Width where
  least : Nat
  most : Option Nat
deriving DecidableEq, Repr

namespace Width

def none : Width := ⟨0, some 0⟩

def one : Width := ⟨1, some 1⟩

def append (v w : Width) : Width :=
  ⟨v.least + w.least, v.most.bind fun m => w.most.map (m + ·)⟩

def either (v w : Width) : Width :=
  ⟨min v.least w.least, v.most.bind fun m => w.most.map (max m)⟩

/-- A part repeated. Nothing repeated without a bound is still nothing. -/
def times (w : Width) (least : Nat) (most : Option Nat) : Width :=
  let bound := match w.most, most with
    | some 0, _ => some 0
    | _, some 0 => some 0
    | some m, some n => some (m * n)
    | _, _ => .none
  ⟨w.least * least, bound⟩

def fixed? (w : Width) : Option Nat := if w.most = some w.least then some w.least else .none

end Width
end Unravel.Regexp
