/-! Kinds whose members are numbered 0, 1, 2, … in a fixed order. The number of a member is its place in
    the list of all members, and a number stands for at most one member. -/

namespace HandsFree

/-- A kind with finitely many members, listed once each in the order of their codes. -/
class Coded (α : Type) [DecidableEq α] where
  members : List α
  mem_members : ∀ a : α, a ∈ members
  nodup_members : members.Nodup

namespace Coded
variable {α : Type} [DecidableEq α] [Coded α]

/-- The code of a member: its place among the members. -/
def code (a : α) : Nat := (members : List α).idxOf a

/-- The member with the code `n`, if `n` is a code at all. -/
def ofCode? (n : Int) : Option α := if n < 0 then none else members[n.toNat]?

theorem code_lt (a : α) : code a < (members : List α).length :=
  List.idxOf_lt_length_of_mem (mem_members a)

theorem ofCode?_code (a : α) : ofCode? (code a : Int) = some a := by
  have h : ¬ (code a : Int) < 0 := by omega
  rw [ofCode?, if_neg h, Int.toNat_natCast, List.getElem?_eq_getElem (code_lt a)]
  exact congrArg some (List.getElem_idxOf (code_lt a))

end Coded

end HandsFree
