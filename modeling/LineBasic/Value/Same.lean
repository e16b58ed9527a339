import LineBasic.Fault
import LineBasic.Heap
import LineBasic.Number.Reading

/-!
# Equality of values

Values are equal if they have the same type and equal parts.  Numbers compare as numbers, so zero
equals negative zero and an undefined number equals nothing.  Arrays are equal if they are the same
one or have equal elements; the names of functions do not count.  Comparing two arrays that contain
themselves need not end, and is then reported as endless.

Between a number and a text, equality is loose: the text is read as a number.
-/

set_option autoImplicit false
namespace LineBasic

section
variable (arrays : Nat → Nat → Except Stop Bool)

mutual

/-- Equality of two values, given that of arrays. -/
def sameValue : Value → Value → Except Stop Bool
  | .number x, .number y => .ok (x == y)
  | .string s, .string t => .ok (s == t)
  | .boolean a, .boolean b => .ok (a == b)
  | .null, .null => .ok true
  | .array p, .array q => if p = q then .ok true else arrays p q
  | .generator g, .generator k => .ok (g.same k)
  | .closure c, .closure d => sameClosure c d
  | .listMonad vs, .listMonad ws => sameValues vs ws
  | .memoMonad v, .memoMonad w => sameValue v w
  | .composed cs, .composed ds => sameClosures cs ds
  | _, _ => .ok false
termination_by structural v => v

/-- Equality of two functions. -/
def sameClosure : Closure → Closure → Except Stop Bool
  | .mk arity body captured _, .mk arity' body' captured' _ => do
    if arity ≠ arity' then return false
    if !(← sameTree body body') then return false
    sameFrames captured captured'
termination_by structural v => v

/-- Equality of two trees. -/
def sameTree : Tree → Tree → Except Stop Bool
  | .null, .null => .ok true
  | .number x, .number y => .ok (x == y)
  | .string s, .string t => .ok (s == t)
  | .boolean a, .boolean b => .ok (a == b)
  | .ident n, .ident m => .ok (n == m)
  | .unary op t, .unary op' t' => if op = op' then sameTree t t' else .ok false
  | .binary op l r, .binary op' l' r' => do
    if op ≠ op' then return false
    if !(← sameTree l l') then return false
    sameTree r r'
  | .call n ts seps, .call m us seps' => do
    if n ≠ m then return false
    if !(← sameTrees ts us) then return false
    return seps == seps'
  | .apply t ts seps, .apply u us seps' => do
    if !(← sameTree t u) then return false
    if !(← sameTrees ts us) then return false
    return seps == seps'
  | .array ts, .array us => sameTrees ts us
  | .params ns, .params ms => .ok (ns == ms)
  | .lambda ns t, .lambda ms u => if ns = ms then sameTree t u else .ok false
  | .parameter d i, .parameter e j => .ok (d == e && i == j)
  | .branch c y n, .branch c' y' n' => do
    if !(← sameTree c c') then return false
    if !(← sameTree y y') then return false
    sameElse n n'
  | .select k t ts, .select k' u us => do
    if k ≠ k' then return false
    if !(← sameTree t u) then return false
    sameTrees ts us
  | .define n ns t, .define m ms u => if n = m ∧ ns = ms then sameTree t u else .ok false
  | .value v, .value w => sameValue v w
  | _, _ => .ok false
termination_by structural v => v

/-- Equality of two other branches. -/
def sameElse : Option Tree → Option Tree → Except Stop Bool
  | none, none => .ok true
  | some t, some u => sameTree t u
  | _, _ => .ok false
termination_by structural v => v

/-- Equality of two sequences of values: of their elements, and then of their lengths. -/
def sameValues : List Value → List Value → Except Stop Bool
  | [], [] => .ok true
  | v :: vs, w :: ws => do
    if !(← sameValue v w) then return false
    sameValues vs ws
  | _, _ => .ok false
termination_by structural v => v

/-- Equality of two stacks of frames. -/
def sameFrames : List (List Value) → List (List Value) → Except Stop Bool
  | [], [] => .ok true
  | f :: fs, g :: gs => do
    if !(← sameFrames fs gs) then return false
    sameValues f g
  | _, _ => .ok false
termination_by structural v => v

/-- Equality of two sequences of functions. -/
def sameClosures : List Closure → List Closure → Except Stop Bool
  | [], [] => .ok true
  | c :: cs, d :: ds => do
    if !(← sameClosure c d) then return false
    sameClosures cs ds
  | _, _ => .ok false
termination_by structural v => v

/-- Equality of two sequences of trees. -/
def sameTrees : List Tree → List Tree → Except Stop Bool
  | [], [] => .ok true
  | t :: ts, u :: us => do
    if !(← sameTree t u) then return false
    sameTrees ts us
  | _, _ => .ok false
termination_by structural v => v

end

end

namespace Heap

/-- Equality of the arrays at two places, entering at most as many pairs as allowed. -/
def sameArrays (h : Heap) : Nat → Nat → Nat → Except Stop Bool
  | 0, _, _ => .error .endlessNesting
  | allowed + 1, p, q =>
    let vs := (h.elements p).toList
    let ws := (h.elements q).toList
    if vs.length = ws.length then sameValues (sameArrays h allowed) vs ws else .ok false

/-- Equality of two values of one type. -/
def same (h : Heap) (v w : Value) : Except Stop Bool :=
  sameValue (h.sameArrays (h.size * h.size + 1)) v w

/-- Equality as programs test it. -/
def looselySame (h : Heap) : Value → Value → Except Stop Bool
  | .number x, .string s | .string s, .number x =>
    .ok (match Number.ofText? s with
      | some y => y == x
      | none => false)
  | v, w => h.same v w

end Heap

end LineBasic
