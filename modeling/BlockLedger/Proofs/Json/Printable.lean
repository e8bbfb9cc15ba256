import BlockLedger.Json.Value
import Mathlib.Tactic.SplitIfs

/-!
# One value, one line

The compact form of a value has no character below the blank in it (`printable_write`): the printer
escapes them in strings and writes none itself. So a line feed never stands inside a value.
-/

namespace BlockLedger.Json

/-- No character lies below the blank. -/
def Printable (cs : List Char) : Prop := ∀ c ∈ cs, 0x20 ≤ c.toNat

-- only the characters of the text are looked at, not all characters there are
instance : DecidablePred Printable := fun cs =>
  decidable_of_iff (cs.all (fun c => decide (0x20 ≤ c.toNat)) = true) (by simp [Printable])

@[simp] theorem printable_nil : Printable [] := fun _ hc => absurd hc List.not_mem_nil

@[simp] theorem printable_cons {c : Char} {cs : List Char} :
    Printable (c :: cs) ↔ 0x20 ≤ c.toNat ∧ Printable cs := List.forall_mem_cons

@[simp] theorem printable_append {cs ds : List Char} :
    Printable (cs ++ ds) ↔ Printable cs ∧ Printable ds := List.forall_mem_append

/-! ### Strings and numbers -/

theorem le_toNat_lowDigit {n : Nat} (h : n < 16) : 0x20 ≤ (lowDigit n).toNat := by
  have hall : ∀ n < 16, 0x20 ≤ (lowDigit n).toNat := by decide
  exact hall n h

/-- The characters written for a character are printable, whatever it is. -/
theorem printable_escape (c : Char) : Printable (escape c) := by
  rw [escape]
  split_ifs with h₁ h₂ h₃ h₄ h₅ h₆ h₇ h₈
  · decide
  · decide
  · decide
  · decide
  · decide
  · decide
  · decide
  · -- four digits
    have hhigh := le_toNat_lowDigit (n := c.toNat / 16) (by omega)
    have hlow := le_toNat_lowDigit (n := c.toNat % 16) (by omega)
    simp only [printable_cons, hhigh, hlow, printable_nil]
    decide
  · rw [printable_cons]
    exact ⟨Nat.le_of_not_lt h₈, printable_nil⟩

theorem printable_quote (s : String) : Printable (quote s) := by
  have hbody : Printable (s.toList.flatMap escape) := by
    intro c hc
    obtain ⟨d, -, hd⟩ := List.mem_flatMap.1 hc
    exact printable_escape d c hd
  rw [quote, printable_append, printable_cons]
  exact ⟨⟨by decide, hbody⟩, by decide⟩

theorem printable_toDigits (n : Nat) : Printable (Nat.toDigits 10 n) := by
  intro c hc
  have hdigit := Nat.isDigit_of_mem_toDigits (by decide) (by decide) hc
  rw [Char.isDigit, Bool.and_eq_true] at hdigit
  have hle : 48 ≤ c.toNat := of_decide_eq_true hdigit.1
  omega

theorem printable_integer (n : Int) : Printable (toString n).toList := by
  rw [Int.toString_eq_repr]
  cases n with
  | ofNat k =>
    rw [Int.repr, Nat.toList_repr]
    exact printable_toDigits k
  | negSucc k =>
    rw [Int.repr, String.toList_append, Nat.toList_repr, printable_append]
    exact ⟨by decide, printable_toDigits _⟩

/-! ### All values -/

mutual

/-- **The compact form of a value** has no control character in it. -/
theorem printable_write (v : Value) (depth : Nat) : Printable (v.write .compact depth) := by
  match v with
  | .null =>
    rw [Value.write]
    decide
  | .bool true =>
    rw [Value.write]
    decide
  | .bool false =>
    rw [Value.write]
    decide
  | .integer n =>
    rw [Value.write]
    exact printable_integer n
  | .text s =>
    rw [Value.write]
    exact printable_quote s
  | .array [] =>
    rw [Value.write]
    decide
  | .array (v :: vs) =>
    have hfirst := printable_write v (depth + 1)
    have hothers := printable_writeItems vs (depth + 1)
    rw [Value.write]
    simp only [printable_append, printable_cons, hfirst, hothers, Layout.break, printable_nil]
    decide
  | .object [] =>
    rw [Value.write]
    decide
  | .object ((k, v) :: ms) =>
    have hkey := printable_quote k
    have hfirst := printable_write v (depth + 1)
    have hothers := printable_writeMembers ms (depth + 1)
    rw [Value.write]
    simp only [printable_append, printable_cons, hkey, hfirst, hothers, Layout.break, Layout.colon,
      printable_nil]
    decide

theorem printable_writeItems (vs : List Value) (depth : Nat) :
    Printable (writeItems .compact depth vs) := by
  match vs with
  | [] => exact printable_nil
  | v :: vs =>
    have hfirst := printable_write v depth
    have hothers := printable_writeItems vs depth
    rw [writeItems]
    simp only [printable_append, printable_cons, hfirst, hothers, Layout.break, printable_nil]
    decide

theorem printable_writeMembers (ms : List (String × Value)) (depth : Nat) :
    Printable (writeMembers .compact depth ms) := by
  match ms with
  | [] => exact printable_nil
  | (k, v) :: ms =>
    have hkey := printable_quote k
    have hfirst := printable_write v depth
    have hothers := printable_writeMembers ms depth
    rw [writeMembers]
    simp only [printable_append, printable_cons, hkey, hfirst, hothers, Layout.break, Layout.colon,
      printable_nil]
    decide

end

end BlockLedger.Json
