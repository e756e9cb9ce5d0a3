import Mathlib.Data.List.Perm.Basic
import Mathlib.Order.Lattice

/-!
# Sorting by exchange

Each place is compared with all behind it, and a larger value there is exchanged with the one at
the place.
-/

namespace RagFlow.Lib.ExchangeSort

universe u v

variable {Item : Type u} {Score : Type v} [LinearOrder Score] (score : Item → Score)

def exchange (item : Item) : List Item → Item × List Item
  | [] => (item, [])
  | other :: rest =>
    if score item < score other then
      ((exchange other rest).1, item :: (exchange other rest).2)
    else ((exchange item rest).1, other :: (exchange item rest).2)

@[simp] theorem length_exchange (item : Item) (rest : List Item) :
    (exchange score item rest).2.length = rest.length := by
  induction rest generalizing item with
  | nil => rfl
  | cons other rest ih =>
    rw [exchange]
    split_ifs
    · exact congrArg (· + 1) (ih other)
    · exact congrArg (· + 1) (ih item)

def sortFrom : Nat → List Item → List Item
  | 0, items => items
  | _ + 1, [] => []
  | places + 1, item :: rest =>
    (exchange score item rest).1 :: sortFrom places (exchange score item rest).2

def sort (items : List Item) : List Item := sortFrom score items.length items

variable {score}

theorem exchange_perm (item : Item) (rest : List Item) :
    ((exchange score item rest).1 :: (exchange score item rest).2).Perm (item :: rest) := by
  induction rest generalizing item with
  | nil => exact .refl _
  | cons other rest ih =>
    rw [exchange]
    split_ifs
    · exact (List.Perm.swap ..).trans ((ih other).cons item)
    · exact (List.Perm.swap ..).trans
        (((ih item).cons other).trans (List.Perm.swap ..))

theorem score_le_exchange (score : Item → Score) (item : Item) (rest : List Item) :
    score item ≤ score (exchange score item rest).1 ∧
      ∀ other ∈ rest, score other ≤ score (exchange score item rest).1 := by
  induction rest generalizing item with
  | nil => exact ⟨le_rfl, by simp⟩
  | cons other rest ih =>
    rw [exchange]
    split_ifs with less
    · obtain ⟨first, others⟩ := ih other
      exact ⟨less.le.trans first, List.forall_mem_cons.mpr ⟨first, others⟩⟩
    · obtain ⟨first, others⟩ := ih item
      exact ⟨first, List.forall_mem_cons.mpr ⟨(not_lt.mp less).trans first, others⟩⟩

theorem sortFrom_perm (places : Nat) (items : List Item) :
    (sortFrom score places items).Perm items := by
  induction places generalizing items with
  | zero => exact .refl _
  | succ places ih =>
    cases items with
    | nil => exact .refl _
    | cons item rest => exact ((ih _).cons _).trans (exchange_perm item rest)

theorem sort_perm (items : List Item) : (sort score items).Perm items :=
  sortFrom_perm items.length items

theorem sortFrom_pairwise {places : Nat} {items : List Item} (enough : items.length ≤ places) :
    (sortFrom score places items).Pairwise fun first second => score second ≤ score first := by
  induction places generalizing items with
  | zero =>
    rw [List.eq_nil_of_length_eq_zero (Nat.le_zero.mp enough)]
    exact .nil
  | succ places ih =>
    cases items with
    | nil => exact .nil
    | cons item rest =>
      have shorter : (exchange score item rest).2.length ≤ places := by
        rw [length_exchange]
        exact Nat.le_of_succ_le_succ enough
      refine .cons (fun other isOther => ?_) (ih shorter)
      have isBehind := (sortFrom_perm places _).subset isOther
      have isItem := (exchange_perm item rest).subset (List.mem_cons_of_mem _ isBehind)
      obtain ⟨first, others⟩ := score_le_exchange score item rest
      rcases List.mem_cons.mp isItem with rfl | isRest
      · exact first
      · exact others other isRest

theorem sort_pairwise (items : List Item) :
    (sort score items).Pairwise fun first second => score second ≤ score first :=
  sortFrom_pairwise (Nat.le_refl _)

end RagFlow.Lib.ExchangeSort
