import Mathlib.Data.List.Nodup
import Mathlib.Logic.Function.Basic

/-!
# Orders of overlapping calls

A history is what is seen of concurrent calls: who calls what, and who is answered what. It is put
in order by a list of its calls that holds every answered call with its answer, and maybe some
that still wait for theirs, and that never puts a call behind one that began after its answer.

To find such an order it is enough to say when each call takes effect. The calls in the order of
these moments put the history in order, as long as each moment lies between call and answer.
-/

namespace Base

variable {τ α ρ : Type*}

/-- What is seen of concurrent calls. -/
inductive Seen (τ α ρ : Type*) where
  | called (t : τ) (op : α)
  | answered (t : τ) (result : ρ)
  deriving DecidableEq

/-- The caller. -/
def Seen.caller : Seen τ α ρ → τ
  | .called t _ => t
  | .answered t _ => t

/-- A call, named by its position in the history, with its result. -/
structure Effect (α ρ : Type*) where
  position : ℕ
  op : α
  result : ρ

/-- The call and its result. -/
def Effect.pair (x : Effect α ρ) : α × ρ := (x.op, x.result)

/-- The last thing seen of this caller is its call at this position. -/
def Unanswered (h : List (Seen τ α ρ)) (t : τ) (i : ℕ) (op : α) : Prop :=
  h[i]? = some (.called t op) ∧ ∀ k seen, i < k → h[k]? = some seen → seen.caller ≠ t

/-- The call is answered with its result at position `j`, before anything else is seen of its
caller. -/
def AnsweredAt (h : List (Seen τ α ρ)) (x : Effect α ρ) (j : ℕ) : Prop :=
  ∃ t, Unanswered (h.take j) t x.position x.op ∧ h[j]? = some (.answered t x.result)

/-- A list of calls puts a history in order. -/
structure Orders (order : List (Effect α ρ)) (h : List (Seen τ α ρ)) : Prop where
  once : (order.map Effect.position).Nodup
  called : ∀ x ∈ order, ∃ t, h[x.position]? = some (.called t x.op)
  complete : ∀ x j, AnsweredAt h x j → x ∈ order
  inTime : ∀ x j y, AnsweredAt h x j → y ∈ order → j < y.position → [x, y].Sublist order

/-! ### Histories that grow -/

/-- What is seen at a position was seen before, or is seen last. -/
theorem getElem?_snoc {h : List (Seen τ α ρ)} {seen seen' : Seen τ α ρ} {i : ℕ}
    (hget : (h ++ [seen])[i]? = some seen') : h[i]? = some seen' ∨ i = h.length ∧ seen = seen' := by
  by_cases hold : i < h.length
  · rw [List.getElem?_append_left hold] at hget
    exact Or.inl hget
  · have hlen := (List.getElem?_eq_some_iff.1 hget).1
    rw [List.length_append, List.length_singleton] at hlen
    have hlast : i = h.length := by omega
    rw [hlast, List.getElem?_concat_length, Option.some.injEq] at hget
    exact Or.inr ⟨hlast, hget⟩

/-- The caller of the last thing seen has called nothing else since. -/
theorem unanswered_called (h : List (Seen τ α ρ)) (t : τ) (op : α) :
    Unanswered (h ++ [.called t op]) t h.length op := by
  refine ⟨List.getElem?_concat_length .., fun k seen hlt hk => ?_⟩
  obtain hold | ⟨rfl, _⟩ := getElem?_snoc hk
  · exact absurd (List.getElem?_eq_some_iff.1 hold).1 (Nat.not_lt_of_gt hlt)
  · exact absurd hlt (Nat.lt_irrefl _)

/-- A call stays unanswered when something is seen of another caller. -/
theorem Unanswered.snoc {h : List (Seen τ α ρ)} {t : τ} {i : ℕ} {op : α} (hopen : Unanswered h t i op)
    {seen : Seen τ α ρ} (hother : seen.caller ≠ t) : Unanswered (h ++ [seen]) t i op := by
  obtain ⟨hcall, hquiet⟩ := hopen
  refine ⟨?_, fun k seen' hlt hk => ?_⟩
  · rw [List.getElem?_append_left (List.getElem?_eq_some_iff.1 hcall).1]
    exact hcall
  · obtain hold | ⟨_, rfl⟩ := getElem?_snoc hk
    · exact hquiet k seen' hlt hold
    · exact hother

/-- A caller has one unanswered call at most. -/
theorem Unanswered.unique {h : List (Seen τ α ρ)} {t : τ} {i j : ℕ} {op op' : α}
    (hopen : Unanswered h t i op) (hopen' : Unanswered h t j op') : i = j ∧ op = op' := by
  have hij : i = j := by
    rcases Nat.lt_trichotomy i j with hlt | heq | hgt
    · exact absurd rfl (hopen.2 j _ hlt hopen'.1)
    · exact heq
    · exact absurd rfl (hopen'.2 i _ hgt hopen.1)
  subst hij
  have hsame := hopen.1.symm.trans hopen'.1
  rw [Option.some.injEq, Seen.called.injEq] at hsame
  exact ⟨rfl, hsame.2⟩

/-- Another thing seen answers the unanswered call of its caller, or no call at all. -/
theorem AnsweredAt.of_snoc {h : List (Seen τ α ρ)} {seen : Seen τ α ρ} {x : Effect α ρ} {j : ℕ}
    (hanswered : AnsweredAt (h ++ [seen]) x j) : AnsweredAt h x j ∨
      j = h.length ∧ ∃ t, seen = .answered t x.result ∧ Unanswered h t x.position x.op := by
  obtain ⟨t, hopen, hanswer⟩ := hanswered
  obtain hold | ⟨rfl, hlast⟩ := getElem?_snoc hanswer
  · have hlt := (List.getElem?_eq_some_iff.1 hold).1
    rw [List.take_append_of_le_length (Nat.le_of_lt hlt)] at hopen
    exact Or.inl ⟨t, hopen, hold⟩
  · rw [List.take_left] at hopen
    exact Or.inr ⟨rfl, t, hlast, hopen⟩

/-- An answered call stays answered. -/
theorem AnsweredAt.snoc {h : List (Seen τ α ρ)} {x : Effect α ρ} {j : ℕ}
    (hanswered : AnsweredAt h x j) (seen : Seen τ α ρ) : AnsweredAt (h ++ [seen]) x j := by
  obtain ⟨t, hopen, hanswer⟩ := hanswered
  have hlt := (List.getElem?_eq_some_iff.1 hanswer).1
  refine ⟨t, ?_, ?_⟩
  · rw [List.take_append_of_le_length (Nat.le_of_lt hlt)]
    exact hopen
  · rw [List.getElem?_append_left hlt]
    exact hanswer

/-- An answer to an unanswered call answers it. -/
theorem Unanswered.answer {h : List (Seen τ α ρ)} {t : τ} {x : Effect α ρ}
    (hopen : Unanswered h t x.position x.op) :
    AnsweredAt (h ++ [.answered t x.result]) x h.length := by
  refine ⟨t, ?_, List.getElem?_concat_length ..⟩
  rw [List.take_left]
  exact hopen

/-- An answer is part of its history. -/
theorem AnsweredAt.lt_length {h : List (Seen τ α ρ)} {x : Effect α ρ} {j : ℕ}
    (hanswered : AnsweredAt h x j) : j < h.length := by
  obtain ⟨t, _, hanswer⟩ := hanswered
  exact (List.getElem?_eq_some_iff.1 hanswer).1

variable {order : List (Effect α ρ)} {h : List (Seen τ α ρ)}

/-- The calls in an order are calls of the history. -/
theorem Orders.position_lt (horders : Orders order h) {x : Effect α ρ} (hx : x ∈ order) :
    x.position < h.length := by
  obtain ⟨t, hcall⟩ := horders.called x hx
  exact (List.getElem?_eq_some_iff.1 hcall).1

/-- An order stays one when something is seen, if it holds the call that this answers. -/
theorem Orders.snoc (horders : Orders order h) {seen : Seen τ α ρ}
    (hserved : ∀ t x, seen = .answered t x.result → Unanswered h t x.position x.op → x ∈ order) :
    Orders order (h ++ [seen]) := by
  refine ⟨horders.once, ?_, ?_, ?_⟩
  · intro x hx
    obtain ⟨t, hcall⟩ := horders.called x hx
    refine ⟨t, ?_⟩
    rw [List.getElem?_append_left (horders.position_lt hx)]
    exact hcall
  · intro x j hanswered
    obtain hold | ⟨_, t, hseen, hopen⟩ := hanswered.of_snoc
    · exact horders.complete x j hold
    · exact hserved t x hseen hopen
  · intro x j y hanswered hy hlt
    obtain hold | ⟨hlast, _⟩ := hanswered.of_snoc
    · exact horders.inTime x j y hold hy hlt
    · -- what was seen last comes after every call
      have hpos := horders.position_lt hy
      omega

/-- An order may go on with an unanswered call that it does not hold yet. -/
theorem Orders.effect (horders : Orders order h) {x : Effect α ρ} {t : τ}
    (hcall : h[x.position]? = some (.called t x.op)) (hnew : ∀ y ∈ order, y.position ≠ x.position) :
    Orders (order ++ [x]) h := by
  refine ⟨?_, ?_, ?_, ?_⟩
  · rw [List.map_append, List.map_singleton, List.nodup_append]
    refine ⟨horders.once, List.nodup_singleton _, fun i hi j hj => ?_⟩
    obtain ⟨y, hy, rfl⟩ := List.mem_map.1 hi
    rw [List.mem_singleton.1 hj]
    exact hnew y hy
  · intro y hy
    obtain hy | hy := List.mem_append.1 hy
    · exact horders.called y hy
    · rw [List.mem_singleton.1 hy]
      exact ⟨t, hcall⟩
  · intro y j hanswered
    exact List.mem_append_left _ (horders.complete y j hanswered)
  · intro y j z hanswered hz hlt
    obtain hz | hz := List.mem_append.1 hz
    · exact (horders.inTime y j z hanswered hz hlt).trans (List.sublist_append_left order [x])
    · rw [List.mem_singleton.1 hz]
      have hfirst := List.singleton_sublist.2 (horders.complete y j hanswered)
      exact hfirst.append (List.Sublist.refl [x])

/-! ### Moments of effect -/

/-- Where a caller stands: it has no call, it waits, or its call has taken effect. -/
inductive Standing (α ρ : Type*) where
  | idle
  | waiting (position : ℕ) (op : α)
  | served (x : Effect α ρ)

variable [DecidableEq τ]

/-- A history whose calls take effect one at a time, the calls in that order, and where each caller
stands. -/
inductive Serving : List (Seen τ α ρ) → List (Effect α ρ) → (τ → Standing α ρ) → Prop
  | nil : Serving [] [] fun _ => .idle
  | call {h order standing t} (op : α) (hserving : Serving h order standing)
      (hidle : standing t = .idle) :
      Serving (h ++ [.called t op]) order (Function.update standing t (.waiting h.length op))
  | effect {h order standing t i op} (result : ρ) (hserving : Serving h order standing)
      (hwaiting : standing t = .waiting i op) :
      Serving h (order ++ [⟨i, op, result⟩])
        (Function.update standing t (.served ⟨i, op, result⟩))
  | answer {h order standing t x} (hserving : Serving h order standing)
      (hserved : standing t = .served x) :
      Serving (h ++ [.answered t x.result]) order (Function.update standing t .idle)

namespace Serving

variable {standing : τ → Standing α ρ}

/-- A waiting call takes effect and is answered at once. -/
theorem effect_answer (hserving : Serving h order standing) {t : τ} {i : ℕ} {op : α}
    (hwaiting : standing t = .waiting i op) (result : ρ) :
    Serving (h ++ [.answered t result]) (order ++ [⟨i, op, result⟩])
      (Function.update standing t .idle) := by
  have hanswer := (hserving.effect result hwaiting).answer (Function.update_self ..)
  rwa [Function.update_idem] at hanswer

/-- A call is made, takes effect and is answered at once. -/
theorem instant (hserving : Serving h order standing) {t : τ} (hidle : standing t = .idle) (op : α)
    (result : ρ) :
    Serving (h ++ [.called t op, .answered t result]) (order ++ [⟨h.length, op, result⟩])
      standing := by
  have hanswer := (hserving.call op hidle).effect_answer (Function.update_self ..) result
  rwa [Function.update_idem, ← hidle, Function.update_eq_self, List.append_assoc] at hanswer

/-- What the order and the history say of the calls in progress, and of all others. -/
structure Account (h : List (Seen τ α ρ)) (order : List (Effect α ρ))
    (standing : τ → Standing α ρ) : Prop where
  orders : Orders order h
  waiting : ∀ t i op, standing t = .waiting i op →
    Unanswered h t i op ∧ ∀ x ∈ order, x.position ≠ i
  served : ∀ t x, standing t = .served x → Unanswered h t x.position x.op ∧ x ∈ order
  settled : ∀ t i op, h[i]? = some (.called t op) → standing t = .waiting i op ∨
    ∃ x ∈ order, x.position = i ∧ (standing t = .served x ∨ ∃ j, AnsweredAt h x j)

/-- A new call waits, and changes nothing for the others. -/
theorem Account.call (haccount : Account h order standing) {t : τ} (hidle : standing t = .idle)
    (op : α) :
    Account (h ++ [.called t op]) order (Function.update standing t (.waiting h.length op)) := by
  refine ⟨haccount.orders.snoc fun u x hseen => ?_, ?_, ?_, ?_⟩
  · cases hseen
  · intro u i op' hwaiting
    rw [Function.update_apply] at hwaiting
    split at hwaiting
    · next heq =>
      cases hwaiting
      rw [heq]
      exact ⟨unanswered_called h t op, fun x hx => Nat.ne_of_lt (haccount.orders.position_lt hx)⟩
    · next hne =>
      obtain ⟨hopen, hnew⟩ := haccount.waiting u i op' hwaiting
      exact ⟨hopen.snoc (Ne.symm hne), hnew⟩
  · intro u x hserved
    rw [Function.update_apply] at hserved
    split at hserved
    · cases hserved
    · next hne =>
      obtain ⟨hopen, hmem⟩ := haccount.served u x hserved
      exact ⟨hopen.snoc (Ne.symm hne), hmem⟩
  · intro u i op' hcall
    obtain hold | ⟨rfl, hlast⟩ := getElem?_snoc hcall
    · obtain hwaiting | ⟨x, hx, hposition, hserved | ⟨j, hanswered⟩⟩ := haccount.settled u i op' hold
      · refine Or.inl ?_
        rw [Function.update_of_ne, hwaiting]
        rintro rfl
        rw [hidle] at hwaiting
        cases hwaiting
      · refine Or.inr ⟨x, hx, hposition, Or.inl ?_⟩
        rw [Function.update_of_ne, hserved]
        rintro rfl
        rw [hidle] at hserved
        cases hserved
      · exact Or.inr ⟨x, hx, hposition, Or.inr ⟨j, hanswered.snoc _⟩⟩
    · obtain ⟨rfl, rfl⟩ := Seen.called.inj hlast
      exact Or.inl (Function.update_self ..)

/-- A call that takes effect goes to the end of the order. -/
theorem Account.effect (haccount : Account h order standing) {t : τ} {i : ℕ} {op : α}
    (hwaiting : standing t = .waiting i op) (result : ρ) :
    Account h (order ++ [⟨i, op, result⟩])
      (Function.update standing t (.served ⟨i, op, result⟩)) := by
  obtain ⟨hopen, hnew⟩ := haccount.waiting t i op hwaiting
  refine ⟨haccount.orders.effect hopen.1 hnew, ?_, ?_, ?_⟩
  · intro u j op' hwaiting'
    rw [Function.update_apply] at hwaiting'
    split at hwaiting'
    · cases hwaiting'
    · next hne =>
      obtain ⟨hopen', hnew'⟩ := haccount.waiting u j op' hwaiting'
      refine ⟨hopen', fun x hx => ?_⟩
      obtain hx | hx := List.mem_append.1 hx
      · exact hnew' x hx
      · -- the two calls stand at different positions, as their callers differ
        rw [List.mem_singleton.1 hx]
        rintro rfl
        have hsame := hopen.1.symm.trans hopen'.1
        rw [Option.some.injEq, Seen.called.injEq] at hsame
        exact hne hsame.1.symm
  · intro u x hserved
    rw [Function.update_apply] at hserved
    split at hserved
    · next heq =>
      cases hserved
      rw [heq]
      exact ⟨hopen, List.mem_append_right _ (List.mem_singleton_self _)⟩
    · obtain ⟨hopen', hmem⟩ := haccount.served u x hserved
      exact ⟨hopen', List.mem_append_left _ hmem⟩
  · intro u j op' hcall
    by_cases heq : u = t
    · subst heq
      obtain hwaiting' | ⟨x, hx, hposition, hserved | hanswered⟩ := haccount.settled u j op' hcall
      · obtain ⟨rfl, rfl⟩ := Standing.waiting.inj (hwaiting.symm.trans hwaiting')
        exact Or.inr ⟨_, List.mem_append_right _ (List.mem_singleton_self _), rfl,
          Or.inl (Function.update_self ..)⟩
      · rw [hwaiting] at hserved
        cases hserved
      · exact Or.inr ⟨x, List.mem_append_left _ hx, hposition, Or.inr hanswered⟩
    · rw [Function.update_of_ne heq]
      obtain hwaiting' | ⟨x, hx, hposition, hsettled⟩ := haccount.settled u j op' hcall
      · exact Or.inl hwaiting'
      · exact Or.inr ⟨x, List.mem_append_left _ hx, hposition, hsettled⟩

/-- An answer goes to a call that has taken effect. -/
theorem Account.answer (haccount : Account h order standing) {t : τ} {x : Effect α ρ}
    (hserved : standing t = .served x) :
    Account (h ++ [.answered t x.result]) order (Function.update standing t .idle) := by
  obtain ⟨hopen, hmem⟩ := haccount.served t x hserved
  refine ⟨haccount.orders.snoc fun u y hseen hopen' => ?_, ?_, ?_, ?_⟩
  · obtain ⟨rfl, hresult⟩ := Seen.answered.inj hseen
    obtain ⟨hposition, hop⟩ := hopen.unique hopen'
    have hsame : y = x := by
      cases x
      cases y
      cases hposition
      cases hop
      cases hresult
      rfl
    rw [hsame]
    exact hmem
  · intro u i op hwaiting
    rw [Function.update_apply] at hwaiting
    split at hwaiting
    · cases hwaiting
    · next hne =>
      obtain ⟨hopen', hnew⟩ := haccount.waiting u i op hwaiting
      exact ⟨hopen'.snoc (Ne.symm hne), hnew⟩
  · intro u y hserved'
    rw [Function.update_apply] at hserved'
    split at hserved'
    · cases hserved'
    · next hne =>
      obtain ⟨hopen', hmem'⟩ := haccount.served u y hserved'
      exact ⟨hopen'.snoc (Ne.symm hne), hmem'⟩
  · intro u i op hcall
    obtain hold | ⟨rfl, hlast⟩ := getElem?_snoc hcall
    · obtain hwaiting | ⟨y, hy, hposition, hserved' | ⟨j, hanswered⟩⟩ := haccount.settled u i op hold
      · refine Or.inl ?_
        rw [Function.update_of_ne, hwaiting]
        rintro rfl
        rw [hserved] at hwaiting
        cases hwaiting
      · by_cases heq : u = t
        · subst heq
          obtain rfl := Standing.served.inj (hserved.symm.trans hserved')
          exact Or.inr ⟨x, hy, hposition, Or.inr ⟨_, hopen.answer⟩⟩
        · refine Or.inr ⟨y, hy, hposition, Or.inl ?_⟩
          rw [Function.update_of_ne heq, hserved']
      · exact Or.inr ⟨y, hy, hposition, Or.inr ⟨j, hanswered.snoc _⟩⟩
    · cases hlast

/-- What the order says holds of every history whose calls take effect one at a time. -/
theorem account (hserving : Serving h order standing) : Account h order standing := by
  induction hserving with
  | nil =>
    refine ⟨⟨List.nodup_nil, ?_, ?_, ?_⟩, ?_, ?_, ?_⟩
    · intro x hx
      cases hx
    · intro x j hanswered
      exact absurd hanswered.lt_length (Nat.not_lt_zero j)
    · intro x j y hanswered
      exact absurd hanswered.lt_length (Nat.not_lt_zero j)
    · intro t i op hwaiting
      cases hwaiting
    · intro t x hserved
      cases hserved
    · intro t i op hcall
      cases hcall
  | call op _ hidle ih => exact ih.call hidle op
  | effect result _ hwaiting ih => exact ih.effect hwaiting result
  | answer _ hserved ih => exact ih.answer hserved

/-- The calls in the order of their effects put the history in order. -/
theorem orders (hserving : Serving h order standing) : Orders order h := hserving.account.orders

/-- A call whose caller has none in progress any more is in the order, and answered. -/
theorem answered (hserving : Serving h order standing) {t : τ} (hidle : standing t = .idle) {i : ℕ}
    {op : α} (hcall : h[i]? = some (.called t op)) :
    ∃ x ∈ order, x.position = i ∧ ∃ j, AnsweredAt h x j := by
  obtain hwaiting | ⟨x, hx, hposition, hserved | hanswered⟩ :=
    hserving.account.settled t i op hcall
  · rw [hidle] at hwaiting
    cases hwaiting
  · rw [hidle] at hserved
    cases hserved
  · exact ⟨x, hx, hposition, hanswered⟩

end Serving

end Base
