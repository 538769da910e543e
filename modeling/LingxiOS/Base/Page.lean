-- SUMMARY: Queries for the first rows of an order, and for the newest row of each key.
import Mathlib.Data.List.Sort

/-! # Pages

`ORDER BY … LIMIT n` of rows no two of which tie: a row is on the page when fewer than `n` rows
come before it. `DISTINCT ON (key) … ORDER BY key, version DESC` takes the newest row of each
key. -/

namespace Page

variable {α κ : Type*}

/-! ## The first rows -/

section First

variable {r : α → α → Prop} [DecidableRel r] {l : List α} {a : α} {n : ℕ}

/-- The first `n` rows in an order. -/
def page (r : α → α → Prop) [DecidableRel r] (n : ℕ) (l : List α) : List α :=
  (l.insertionSort r).take n

/-- The rows that come before another. -/
def before (r : α → α → Prop) [DecidableRel r] (a : α) (l : List α) : List α :=
  l.filter fun b => ¬r a b

theorem before_cons (r : α → α → Prop) [DecidableRel r] (a b : α) (l : List α) :
    before r a (b :: l) = if r a b then before r a l else b :: before r a l := by
  by_cases h : r a b <;> simp [before, h]

/-- No two rows tie. -/
def Untied (r : α → α → Prop) (l : List α) : Prop := l.Pairwise fun a b => ¬(r a b ∧ r b a)

theorem mem_take_iff (hsorted : l.Pairwise fun a b => r a b ∧ ¬r b a) (hrefl : ∀ a, r a a) :
    a ∈ l.take n ↔ a ∈ l ∧ (before r a l).length < n := by
  induction hsorted generalizing n with
  | nil => simp
  | @cons b l hfirst _ ih =>
      cases n with
      | zero => simp
      | succ n =>
          rw [List.take_succ_cons, List.mem_cons, ih, List.mem_cons, before_cons]
          by_cases hab : a = b
          case pos =>
            subst hab
            have hnone : before r a l = [] :=
              List.filter_eq_nil_iff.2 fun c hc => by simpa using (hfirst c hc).1
            simp [hrefl a, hnone]
          case neg =>
            refine ⟨fun h => ?_, fun h => .inr ?_⟩
            · obtain ⟨hmem, hcount⟩ := h.resolve_left hab
              rw [if_neg (hfirst a hmem).2, List.length_cons]
              exact ⟨.inr hmem, Nat.succ_lt_succ hcount⟩
            · obtain ⟨hmem, hcount⟩ := h
              have hmem := hmem.resolve_left hab
              rw [if_neg (hfirst a hmem).2, List.length_cons] at hcount
              exact ⟨hmem, Nat.lt_of_succ_lt_succ hcount⟩

/-- A row is on the page when fewer than `n` rows come before it. -/
theorem mem_page_iff [Std.Total r] [IsTrans α r] (hties : Untied r l) :
    a ∈ page r n l ↔ a ∈ l ∧ (before r a l).length < n := by
  have hperm := List.perm_insertionSort r l
  have hsorted : (l.insertionSort r).Pairwise fun a b => r a b ∧ ¬r b a := by
    have huntied : Untied r (l.insertionSort r) :=
      (hperm.pairwise_iff fun h => fun hr => h hr.symm).2 hties
    exact (List.pairwise_insertionSort r l).imp₂ (fun a b hab hnot => ⟨hab, fun hba => hnot ⟨hab, hba⟩⟩) huntied
  rw [page, mem_take_iff hsorted fun a => (Std.Total.total a a).elim id id, hperm.mem_iff, before,
    before, (hperm.filter _).length_eq]

end First

/-! ## The newest rows -/

section Newest

variable [DecidableEq κ] {key : α → κ} {version : α → ℤ} {l : List α} {a b : α}

/-- The newest row of each key. -/
def newest (key : α → κ) (version : α → ℤ) (l : List α) : List α :=
  l.filter fun a => l.all fun b => key b = key a → version b ≤ version a

theorem mem_newest_iff : a ∈ newest key version l
    ↔ a ∈ l ∧ ∀ b ∈ l, key b = key a → version b ≤ version a := by
  simp only [newest, List.mem_filter, List.all_eq_true, decide_eq_true_eq]

/-- If no two rows are one version of one key, no two of the newest rows have one key. -/
theorem newest_pairwise (h : l.Pairwise fun a b => key a = key b → version a ≠ version b) :
    (newest key version l).Pairwise fun a b => key a ≠ key b := by
  refine List.Pairwise.imp_of_mem (fun ha hb hversion hkey => ?_) (h.filter _)
  obtain ⟨hal, hamax⟩ := mem_newest_iff.1 ha
  obtain ⟨hbl, hbmax⟩ := mem_newest_iff.1 hb
  exact hversion hkey (le_antisymm (hbmax _ hal hkey) (hamax _ hbl hkey.symm))

end Newest

end Page
