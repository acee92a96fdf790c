import Mathlib.Algebra.Group.Basic
import Mathlib.Data.Finset.Insert
import Mathlib.Data.Finset.Erase
import Mathlib.Logic.Function.Basic

/-!
# Ledgers of a shared quantity

Threads add to a quantity, read it, publish what they have read and answer their callers. A ledger
replays these marks. It pins the quantity at every thread's last change, at its last reading and
at the reading that was published last, and every pin keeps what has been added since, so that a
pinned value is the present one exactly when the additions since cancel out.
-/

namespace Base

/-- What a thread does about a shared quantity. -/
inductive Mark (τ γ : Type*) where
  | add (t : τ) (amount : γ)
  | read (t : τ)
  | publish (t : τ)
  | answer (t : τ) (value : γ)
  deriving DecidableEq

/-- The thread of a mark. -/
def Mark.thread {τ γ : Type*} : Mark τ γ → τ
  | .add t _ => t
  | .read t => t
  | .publish t => t
  | .answer t _ => t

/-- What has to be true of an addition. -/
def Mark.IfAdd {τ γ : Type*} (P : τ → γ → Prop) : Mark τ γ → Prop
  | .add t amount => P t amount
  | _ => True

/-- What has to be true of an answer. -/
def Mark.IfAnswer {τ γ : Type*} (P : τ → γ → Prop) : Mark τ γ → Prop
  | .answer t v => P t v
  | _ => True

instance {τ γ : Type*} (P : τ → γ → Prop) [∀ t v, Decidable (P t v)] :
    DecidablePred (Mark.IfAnswer P)
  | .answer t v => inferInstanceAs (Decidable (P t v))
  | .add _ _ => isTrue trivial
  | .read _ => isTrue trivial
  | .publish _ => isTrue trivial

/-- The quantity at some moment, and what has been added since. -/
structure Pin (γ : Type*) where
  value : γ
  since : γ
  deriving DecidableEq

/-- A ledger: the quantity, the pins, what was added between a thread's last change and its
reading, and the threads that have not answered since they changed it. -/
structure Ledger (τ γ : Type*) where
  count : γ
  changed : τ → Pin γ
  taken : τ → Pin γ
  drift : τ → γ
  published : Pin γ
  owing : Finset τ

namespace Pin

variable {γ : Type*}

/-- A pin at the present quantity. -/
def now [Zero γ] (count : γ) : Pin γ := ⟨count, 0⟩

/-- An addition after the pin was set. -/
def add [Add γ] (pin : Pin γ) (amount : γ) : Pin γ := { pin with since := pin.since + amount }

/-- The pinned value and what was added since make up the quantity. -/
def Reaches [Add γ] (pin : Pin γ) (count : γ) : Prop := pin.value + pin.since = count

@[simp] theorem add_value [Add γ] (pin : Pin γ) (amount : γ) : (pin.add amount).value = pin.value := rfl

variable [AddMonoid γ]

theorem reaches_now (count : γ) : (now count).Reaches count := add_zero count

/-- An addition is kept by every pin. -/
theorem Reaches.add {pin : Pin γ} {count : γ} (h : pin.Reaches count) (amount : γ) :
    (pin.add amount).Reaches (count + amount) := by
  rw [Reaches, add_value, Pin.add, ← add_assoc, h]

/-- The pinned value is the present one exactly when the additions since cancel out. -/
theorem Reaches.value_eq_iff [IsLeftCancelAdd γ] {pin : Pin γ} {count : γ} (h : pin.Reaches count) :
    pin.value = count ↔ pin.since = 0 := by
  rw [← h, left_eq_add]

end Pin

namespace Ledger

variable {τ γ : Type*}

/-- A ledger that starts with a quantity. -/
def start [Zero γ] (count : γ) : Ledger τ γ :=
  ⟨count, fun _ => .now count, fun _ => .now count, fun _ => 0, .now count, ∅⟩

section Replay

variable [DecidableEq τ] [Add γ] [Zero γ]

/-- Enter a mark. -/
def record (l : Ledger τ γ) : Mark τ γ → Ledger τ γ
  | .add t amount =>
    { count := l.count + amount
      changed := Function.update (fun u => (l.changed u).add amount) t (.now (l.count + amount))
      taken := fun u => (l.taken u).add amount
      drift := l.drift
      published := l.published.add amount
      owing := insert t l.owing }
  | .read t =>
    { l with
      taken := Function.update l.taken t (.now l.count)
      drift := Function.update l.drift t (l.changed t).since }
  | .publish t => { l with published := l.taken t }
  | .answer t _ => { l with owing := l.owing.erase t }

@[simp] theorem changed_add_self (l : Ledger τ γ) (t : τ) (amount : γ) :
    (l.record (.add t amount)).changed t = .now (l.count + amount) :=
  Function.update_self t _ fun u => (l.changed u).add amount

theorem changed_add_of_ne (l : Ledger τ γ) {t u : τ} (h : u ≠ t) (amount : γ) :
    (l.record (.add t amount)).changed u = (l.changed u).add amount :=
  Function.update_of_ne h _ fun u => (l.changed u).add amount

@[simp] theorem taken_read_self (l : Ledger τ γ) (t : τ) :
    (l.record (.read t)).taken t = .now l.count := Function.update_self ..

theorem taken_read_of_ne (l : Ledger τ γ) {t u : τ} (h : u ≠ t) :
    (l.record (.read t)).taken u = l.taken u := Function.update_of_ne h ..

@[simp] theorem drift_read_self (l : Ledger τ γ) (t : τ) :
    (l.record (.read t)).drift t = (l.changed t).since := Function.update_self ..

theorem drift_read_of_ne (l : Ledger τ γ) {t u : τ} (h : u ≠ t) :
    (l.record (.read t)).drift u = l.drift u := Function.update_of_ne h ..

/-- A thread that changes the quantity owes an answer. -/
theorem mem_owing_add (l : Ledger τ γ) {t u : τ} (amount : γ) {p : Prop} (hp : p) :
    u ∈ (l.record (.add t amount)).owing ↔ if u = t then p else u ∈ l.owing := by
  change u ∈ insert t l.owing ↔ _
  rw [Finset.mem_insert]
  split
  · next hu => exact iff_of_true (.inl hu) hp
  · next hu => exact or_iff_right hu

/-- A thread that has answered owes nothing. -/
theorem mem_owing_answer (l : Ledger τ γ) {t u : τ} (v : γ) {p : Prop} (hp : ¬ p) :
    u ∈ (l.record (.answer t v)).owing ↔ if u = t then p else u ∈ l.owing := by
  change u ∈ l.owing.erase t ↔ _
  rw [Finset.mem_erase]
  split
  · next hu => exact iff_of_false (fun h => h.1 hu) hp
  · next hu => exact and_iff_right hu

omit [Add γ] [Zero γ] in
/-- Where nothing changes for a thread, nothing changes. -/
theorem mem_owing_kept {l : Ledger τ γ} {t u : τ} {p : Prop} (hp : t ∈ l.owing ↔ p) :
    u ∈ l.owing ↔ if u = t then p else u ∈ l.owing := by
  split
  · next hu => rw [hu, hp]
  · exact Iff.rfl

/-- Enter marks in order. -/
def replay (l : Ledger τ γ) (marks : List (Mark τ γ)) : Ledger τ γ := marks.foldl record l

theorem replay_cons (l : Ledger τ γ) (mark : Mark τ γ) (marks : List (Mark τ γ)) :
    l.replay (mark :: marks) = (l.record mark).replay marks := rfl

theorem replay_append (l : Ledger τ γ) (marks marks' : List (Mark τ γ)) :
    l.replay (marks ++ marks') = (l.replay marks).replay marks' := List.foldl_append

/-- Every mark satisfies `P` in the ledger that it is entered in. -/
def Holds (P : Ledger τ γ → Mark τ γ → Prop) : Ledger τ γ → List (Mark τ γ) → Prop
  | _, [] => True
  | l, mark :: marks => P l mark ∧ Holds P (l.record mark) marks

instance decidableHolds {P : Ledger τ γ → Mark τ γ → Prop} [∀ l, DecidablePred (P l)] :
    ∀ (l : Ledger τ γ) (marks : List (Mark τ γ)), Decidable (l.Holds P marks)
  | _, [] => isTrue trivial
  | l, mark :: marks =>
    have := decidableHolds (P := P) (l.record mark) marks
    inferInstanceAs (Decidable (_ ∧ _))

/-- Every answer is the quantity right after its thread's last change. -/
def Linearized (l : Ledger τ γ) (marks : List (Mark τ γ)) : Prop :=
  l.Holds (fun l => Mark.IfAnswer fun t v => v = (l.changed t).value) marks

/-- What was added between a thread's last change and its reading cancels out when it answers. -/
def Undisturbed (l : Ledger τ γ) (marks : List (Mark τ γ)) : Prop :=
  l.Holds (fun l => Mark.IfAnswer fun t _ => l.drift t = 0) marks

instance [DecidableEq γ] (l : Ledger τ γ) (marks : List (Mark τ γ)) :
    Decidable (l.Linearized marks) := decidableHolds l marks

instance [DecidableEq γ] (l : Ledger τ γ) (marks : List (Mark τ γ)) :
    Decidable (l.Undisturbed marks) := decidableHolds l marks

/-- Every answer is what its thread found when it read the quantity. -/
def Explained (l : Ledger τ γ) (marks : List (Mark τ γ)) : Prop :=
  l.Holds (fun l => Mark.IfAnswer fun t v => v = (l.changed t).value + l.drift t) marks

/-- Changes and answers alternate for every thread. -/
def Alternating (l : Ledger τ γ) (marks : List (Mark τ γ)) : Prop :=
  l.Holds (fun l mark => (mark.IfAdd fun t _ => t ∉ l.owing) ∧
    mark.IfAnswer fun t _ => t ∈ l.owing) marks

/-- The values answered, in order. -/
def answers (marks : List (Mark τ γ)) : List γ :=
  marks.filterMap fun | .answer _ v => some v | _ => none

/-- The quantities right after each change, in order. -/
def counts (l : Ledger τ γ) : List (Mark τ γ) → List γ
  | [] => []
  | .add t amount :: marks => (l.count + amount) :: (l.record (.add t amount)).counts marks
  | mark :: marks => (l.record mark).counts marks

theorem counts_add (l : Ledger τ γ) (t : τ) (amount : γ) (marks : List (Mark τ γ)) :
    l.counts (.add t amount :: marks) =
      (l.count + amount) :: (l.record (.add t amount)).counts marks := rfl

theorem holds_append {P : Ledger τ γ → Mark τ γ → Prop} {l : Ledger τ γ}
    {marks marks' : List (Mark τ γ)} :
    l.Holds P (marks ++ marks') ↔ l.Holds P marks ∧ (l.replay marks).Holds P marks' := by
  induction marks generalizing l with
  | nil => exact (true_and _).to_iff.symm
  | cons mark marks ih =>
    rw [List.cons_append, Holds, Holds, ih, and_assoc]
    rfl

/-- Conditions that agree wherever a third one holds. -/
theorem Holds.congr {P Q R : Ledger τ γ → Mark τ γ → Prop} {l : Ledger τ γ}
    {marks : List (Mark τ γ)} (h : l.Holds R marks) (hiff : ∀ l mark, R l mark → (P l mark ↔ Q l mark)) :
    l.Holds P marks ↔ l.Holds Q marks := by
  induction marks generalizing l with
  | nil => exact Iff.rfl
  | cons mark marks ih => exact and_congr (hiff l mark h.1) (ih h.2)

end Replay

variable [DecidableEq τ] [AddMonoid γ]

/-- All pins of a ledger make up its quantity. -/
structure Coherent (l : Ledger τ γ) : Prop where
  changed : ∀ t, (l.changed t).Reaches l.count
  taken : ∀ t, (l.taken t).Reaches l.count
  published : l.published.Reaches l.count

omit [DecidableEq τ] in
theorem coherent_start (count : γ) : (start count : Ledger τ γ).Coherent :=
  ⟨fun _ => Pin.reaches_now count, fun _ => Pin.reaches_now count, Pin.reaches_now count⟩

/-- Every mark keeps a ledger coherent. -/
theorem Coherent.record {l : Ledger τ γ} (h : l.Coherent) (mark : Mark τ γ) :
    (l.record mark).Coherent := by
  cases mark with
  | add t amount =>
    refine ⟨fun u => ?_, fun u => (h.taken u).add amount, h.published.add amount⟩
    by_cases hu : u = t
    · rw [hu, changed_add_self]
      exact Pin.reaches_now _
    · rw [changed_add_of_ne l hu]
      exact (h.changed u).add amount
  | read t =>
    refine ⟨h.changed, fun u => ?_, h.published⟩
    by_cases hu : u = t
    · rw [hu, taken_read_self]
      exact Pin.reaches_now _
    · rw [taken_read_of_ne l hu]
      exact h.taken u
  | publish t => exact ⟨h.changed, h.taken, h.taken t⟩
  | answer t v => exact ⟨h.changed, h.taken, h.published⟩

/-- Every replay keeps a ledger coherent. -/
theorem Coherent.replay {l : Ledger τ γ} (h : l.Coherent) (marks : List (Mark τ γ)) :
    (l.replay marks).Coherent := by
  induction marks generalizing l with
  | nil => exact h
  | cons mark marks ih => exact ih (h.record mark)

/-- What a thread found when it read the quantity: its last change and what others had added since. -/
structure Found (l : Ledger τ γ) (t : τ) (v : γ) : Prop where
  taken : v = (l.taken t).value
  explained : v = (l.changed t).value + l.drift t

/-- A reading finds the present quantity. -/
theorem Coherent.found_read {l : Ledger τ γ} (h : l.Coherent) (t : τ) :
    (l.record (.read t)).Found t l.count := by
  refine ⟨?_, ?_⟩
  · rw [taken_read_self]
    rfl
  · rw [drift_read_self]
    exact (h.changed t).symm

/-- What a thread found is not changed by the marks of others. -/
theorem Found.record {l : Ledger τ γ} {t : τ} {v : γ} (h : l.Found t v) {mark : Mark τ γ}
    (hother : mark.thread ≠ t) : (l.record mark).Found t v := by
  cases mark with
  | add u amount =>
    have hne : t ≠ u := hother.symm
    refine ⟨h.taken, ?_⟩
    rw [changed_add_of_ne l hne, Pin.add_value]
    exact h.explained
  | read u =>
    have hne : t ≠ u := hother.symm
    refine ⟨?_, ?_⟩
    · rw [taken_read_of_ne l hne]
      exact h.taken
    · rw [drift_read_of_ne l hne]
      exact h.explained
  | publish u => exact ⟨h.taken, h.explained⟩
  | answer u w => exact ⟨h.taken, h.explained⟩

theorem Found.replay {l : Ledger τ γ} {t : τ} {v : γ} (h : l.Found t v) {marks : List (Mark τ γ)}
    (hothers : ∀ mark ∈ marks, mark.thread ≠ t) : (l.replay marks).Found t v := by
  induction marks generalizing l with
  | nil => exact h
  | cons mark marks ih =>
    exact ih (h.record (hothers mark List.mem_cons_self)) fun other hother =>
      hothers other (List.mem_cons_of_mem mark hother)

/-- Answers that are what their threads found are linearized exactly when nothing disturbed them. -/
theorem Explained.linearized_iff [IsLeftCancelAdd γ] {l : Ledger τ γ} {marks : List (Mark τ γ)}
    (h : l.Explained marks) : l.Linearized marks ↔ l.Undisturbed marks := by
  refine Holds.congr h fun l mark hexplained => ?_
  cases mark with
  | answer t v =>
    have hv : v = (l.changed t).value + l.drift t := hexplained
    change v = (l.changed t).value ↔ l.drift t = 0
    rw [hv, add_eq_left]
  | _ => exact Iff.rfl

/-- Linearized answers are the quantities right after each change, each of them once, but for the
changes that are not answered yet. -/
theorem Linearized.perm {l : Ledger τ γ} {marks : List (Mark τ γ)} (h : l.Linearized marks)
    (halternating : l.Alternating marks) :
    (l.owing.val.map fun t => (l.changed t).value) + l.counts marks =
      (answers marks : Multiset γ) +
        (l.replay marks).owing.val.map fun t => ((l.replay marks).changed t).value := by
  induction marks generalizing l with
  | nil => exact Multiset.add_comm _ _
  | cons mark marks ih =>
    have hrest := ih h.2 halternating.2
    cases mark with
    | add t amount =>
      have hnotMem : t ∉ l.owing := halternating.1.1
      have hothers : l.owing.val.map (fun u => ((l.record (.add t amount)).changed u).value) =
          l.owing.val.map fun u => (l.changed u).value := by
        refine Multiset.map_congr rfl fun u hu => ?_
        have hne : u ≠ t := fun heq => hnotMem (heq ▸ hu)
        rw [changed_add_of_ne l hne, Pin.add_value]
      have howing : (l.record (.add t amount)).owing.val = t ::ₘ l.owing.val :=
        Finset.insert_val_of_notMem hnotMem
      rw [howing, Multiset.map_cons, hothers, changed_add_self, Multiset.cons_add] at hrest
      rw [counts, ← Multiset.cons_coe, Multiset.add_cons]
      exact hrest
    | read t => exact hrest
    | publish t => exact hrest
    | answer t v =>
      have hmem : t ∈ l.owing := halternating.1.2
      have hvalue : v = (l.changed t).value := h.1
      have howing : t ::ₘ (l.owing.erase t).val = l.owing.val := by
        rw [Finset.erase_val, Multiset.cons_erase hmem]
      have hanswers : (answers (.answer t v :: marks) : Multiset γ) = v ::ₘ answers marks := rfl
      rw [← howing, Multiset.map_cons, Multiset.cons_add, ← hvalue, hanswers, Multiset.cons_add]
      exact congrArg (Multiset.cons v) hrest

end Ledger

end Base
