import WsKit.Base.Simulation
import WsKit.FanOutSafety
import WsKit.RoomOutline

/-!
# The local half of a registry

A registry stands in for a room manager: its calls are those of its local manager, and a broadcast
asks for the local room and sends to it. Messages of other nodes come in between, on rooms that are
hosted by then. None of them can be told from what the node's own callers are answered, nor from
the rooms, rosters and receivers that the node ends with.
-/

namespace WsKit.Cluster

open Base RoomManager

universe v

variable {ν : Type*} [DecidableEq ν]

/-- The call that is made on a node's manager in an event. -/
def performed (x : ν) (s : State ν) : Event ν → Option RoomOp
  | .use y op => if y = x then some op else none
  | .enter k =>
    match s.tasks[k]? with
    | some ⟨source, .entering⟩ =>
      if source.node = x then some (.getOrCreate source.roomId) else none
    | _ => none
  | .deliver k =>
    match s.tasks[k]? with
    | some ⟨source, .delivering ref⟩ =>
      if source.node = x then some (.broadcast ref source.frame) else none
    | _ => none
  | .apply y =>
    match s.loop y with
    | .applying _ ref frame => if y = x then some (.broadcast ref frame) else none
    | .waiting => none
  | _ => none

/-- The call that the node's own callers and broadcasts make, and not its subscriber loop. -/
def asked (x : ν) (s : State ν) : Event ν → Option RoomOp
  | .apply _ => none
  | e => performed x s e

section AnyChannel

variable [ChannelApi Frame]

/-- What the manager answers to it. -/
def told (x : ν) (s : State ν) (e : Event ν) : Option (RoomOp × RoomResult) :=
  (asked x s e).bind fun op => ((s.manager x).call op).map fun called => (op, called.1)

/-- The calls that a node's own callers and broadcasts make in a run. -/
def callsOn (fleet : Fleet ν) (x : ν) (es : List (Event ν)) (s : State ν) : List RoomOp :=
  (machine fleet).along (fun s e => (asked x s e).toList) es s

/-- The same calls, with their answers. -/
def answersOn (fleet : Fleet ν) (x : ν) (es : List (Event ν)) (s : State ν) :
    List (RoomOp × RoomResult) :=
  (machine fleet).along (fun s e => (told x s e).toList) es s

/-- What the manager answers to any call, also of the subscriber loop. -/
def answered (x : ν) (s : State ν) (e : Event ν) : Option (RoomOp × RoomResult) :=
  (performed x s e).bind fun op => ((s.manager x).call op).map fun called => (op, called.1)

/-- All calls that are made on a node's manager in a run. -/
def allCallsOn (fleet : Fleet ν) (x : ν) (es : List (Event ν)) (s : State ν) : List RoomOp :=
  (machine fleet).along (fun s e => (performed x s e).toList) es s

/-- All calls, with their answers. -/
def allAnswersOn (fleet : Fleet ν) (x : ν) (es : List (Event ν)) (s : State ν) :
    List (RoomOp × RoomResult) :=
  (machine fleet).along (fun s e => (answered x s e).toList) es s

variable {fleet : Fleet ν} {s s' : State ν} {e : Event ν} {out : List (Obs ν)}

/-- A node's manager is as it was, or has answered the call that was made on it. -/
def Performs (x : ν) (s : State ν) (op : Option RoomOp) (s' : State ν) : Prop :=
  match op with
  | none => s'.manager x = s.manager x
  | some op => ∃ result, (s.manager x).call op = some (result, s'.manager x)

/-- A call on one node leaves the others' managers alone. -/
theorem performs_of_call {y : ν} {op : RoomOp} {result : RoomResult} {m : RoomManager}
    (hcall : (s.manager y).call op = some (result, m))
    (hmanager : s'.manager = (s.withManager y m).manager) (x : ν) :
    Performs x s (if y = x then some op else none) s' := by
  have hx : s'.manager x = if x = y then m else s.manager x := by
    rw [hmanager, withManager_manager]
  by_cases heq : y = x
  · subst heq
    rw [if_pos rfl] at hx ⊢
    exact ⟨result, by rw [hx, hcall]⟩
  · rw [if_neg (Ne.symm heq)] at hx
    rw [if_neg heq]
    exact hx

/-- A broadcast that asks for its room makes this call, whether it panics or not. -/
theorem performs_enter (x : ν) {k : ℕ} {source : Broadcast ν}
    (htask : s.tasks[k]? = some ⟨source, .entering⟩) :
    Performs x s (performed x s (.enter k)) (enter s k source) := by
  simp only [performed, htask]
  cases hmade : (s.manager source.node).getOrCreate source.roomId with
  | some made =>
    have hcall : (s.manager source.node).call (.getOrCreate source.roomId) =
        some (.room made.1, made.2) := by
      rw [RoomManager.call, hmade]
      rfl
    refine performs_of_call hcall ?_ x
    rw [enter, hmade]
    rfl
  | none =>
    have hcall : (s.manager source.node).call (.getOrCreate source.roomId) =
        some (.panicked, s.manager source.node) := by
      rw [RoomManager.call, hmade]
      rfl
    refine performs_of_call hcall ?_ x
    rw [enter, hmade, State.withManager, Function.update_eq_self]
    rfl

/-- What a step does to the manager of a node. -/
theorem performs_of_step (h : step fleet s e = some (s', out)) (x : ν) :
    Performs x s (performed x s e) s' := by
  cases hcase : step_cases h with
  | use hop hcall => exact performs_of_call hcall rfl x
  | enter htask hcall =>
    have henter := performs_enter x htask
    simp only [step, htask, Option.some.injEq, Prod.mk.injEq] at h
    rwa [h.1] at henter
  | panic htask =>
    have henter := performs_enter x htask
    simp only [step, htask, Option.some.injEq, Prod.mk.injEq] at h
    rwa [h.1] at henter
  | deliver htask hsent =>
    simp only [performed, htask]
    exact performs_of_call (RoomManager.call_of_broadcast hsent) rfl x
  | apply hloop hsent =>
    simp only [performed, hloop]
    exact performs_of_call (RoomManager.call_of_broadcast hsent) rfl x
  | broadcast source => exact rfl
  | publish htask hreached => exact rfl
  | publishLost htask hreached => exact rfl
  | lose y i => exact rfl
  | receive hloop hhand => exact rfl

/-- A fleet follows the plain manager that takes all calls made on one node. -/
theorem follows_performed (fleet : Fleet ν) (x : ν) :
    (machine fleet).Follows RoomManager.machine (fun s m => m = s.manager x)
      (fun s e => (performed x s e).toList) (fun s e => (answered x s e).toList) := by
  rintro s _ e s' out rfl hstep
  have hperforms := performs_of_step hstep x
  refine ⟨s'.manager x, fun tr => ?_, rfl⟩
  cases hperformed : performed x s e with
  | none =>
    have hsame : s'.manager x = s.manager x := by rwa [hperformed] at hperforms
    simp only [answered, hperformed, Option.bind_none, Option.toList_none, Machine.run,
      List.append_nil, hsame]
  | some op =>
    obtain ⟨result, hcall⟩ : ∃ result, (s.manager x).call op = some (result, s'.manager x) := by
      rwa [hperformed] at hperforms
    simp only [answered, hperformed, Option.bind_some, hcall, Option.map_some, Option.toList_some,
      Machine.run, RoomManager.machine]

/-- A step in which a node's own callers ask for nothing cannot be seen by them. -/
theorem alike_of_not_asked (h : step fleet s e = some (s', out)) {x : ν} (hasked : asked x s e = none) :
    Alike (s'.manager x) (s.manager x) := by
  have hperforms := performs_of_step h x
  have hstays : performed x s e = none → Alike (s'.manager x) (s.manager x) := by
    intro hnone
    rw [hnone] at hperforms
    rw [hperforms]
    exact Alike.refl (s.manager x)
  cases e with
  | apply y =>
    simp only [performed] at hperforms hstays
    split at hperforms
    · next message ref frame hloop =>
      by_cases heq : y = x
      · rw [if_pos heq] at hperforms
        obtain ⟨result, hcall⟩ := hperforms
        obtain ⟨sent, hsent, hpair⟩ := Option.map_eq_some_iff.1 hcall
        obtain ⟨-, hmanager⟩ := Prod.mk.inj hpair
        rw [← hmanager]
        exact Alike.of_broadcast hsent
      · exact hstays (by rw [hloop]; exact if_neg heq)
    · next hloop => exact hstays (by rw [hloop])
  | use y op => exact hstays hasked
  | broadcast source => exact hstays hasked
  | enter k => exact hstays hasked
  | deliver k => exact hstays hasked
  | publish k outcome => exact hstays hasked
  | lose y i => exact hstays hasked
  | receive y => exact hstays hasked

omit [ChannelApi Frame] in
/-- What a node's own callers ask for is performed. -/
theorem performed_of_asked {x : ν} {op : RoomOp} (h : asked x s e = some op) :
    performed x s e = some op := by
  cases e with
  | apply y => cases h
  | _ => exact h

/-- A fleet follows a plain manager that takes one node's own calls only. -/
theorem follows (fleet : Fleet ν) (x : ν) :
    (machine fleet).Follows RoomManager.machine (fun s m => Alike (s.manager x) m)
      (fun s e => (asked x s e).toList) (fun s e => (told x s e).toList) := by
  intro s m e s' out halike hstep
  cases hasked : asked x s e with
  | some op =>
    have hperforms := performs_of_step hstep x
    rw [performed_of_asked hasked] at hperforms
    obtain ⟨result, hcall⟩ := hperforms
    obtain ⟨m', hcall', halike'⟩ := halike.call hcall
    have htold : told x s e = some (op, result) := by
      simp only [told, hasked, Option.bind_some, hcall, Option.map_some]
    refine ⟨m', fun tr => ?_, halike'⟩
    simp only [htold, hasked, Option.toList_some, Machine.run, RoomManager.machine, hcall',
      Option.map_some, Option.bind_some]
  | none =>
    refine ⟨m, fun tr => ?_, (alike_of_not_asked hstep hasked).trans halike⟩
    simp only [told, hasked, Option.bind_none, Option.toList_none, Machine.run, List.append_nil]

/-- In every run of a fleet the calls that are made on a node, those of its subscriber loop among them,
are answered as a plain manager answers them, which ends as the node's own. Without the loop's calls
the others are still answered so, whatever the other nodes do and Redis hands over in between, and
the node ends with the rooms, rosters, receivers and room gauge of that manager. So in any two runs,
of any two fleets, in which a node's callers and broadcasts make the same calls, the other nodes, the
messages and the failures notwithstanding, they are told the same and the node ends alike. -/
theorem localHalf_undisturbed (fleet : Fleet ν) (manager : ν → RoomManager) (x : ν)
    {es : List (Event ν)} {s : State ν} {tr : List (Obs ν)}
    (hrun : (machine fleet).run es (start manager, []) = some (s, tr)) :
    RoomManager.machine.run (allCallsOn fleet x es (start manager)) (manager x, []) =
        some (s.manager x, allAnswersOn fleet x es (start manager)) ∧
      (∃ m, RoomManager.machine.run (callsOn fleet x es (start manager)) (manager x, []) =
        some (m, answersOn fleet x es (start manager)) ∧ Alike (s.manager x) m) ∧
      ∀ (ν' : Type v) [DecidableEq ν'] (fleet' : Fleet ν') (manager' : ν' → RoomManager) (x' : ν')
        (es' : List (Event ν')) (s' : State ν') (tr' : List (Obs ν')),
        (machine fleet').run es' (start manager', []) = some (s', tr') →
        manager' x' = manager x →
        callsOn fleet' x' es' (start manager') = callsOn fleet x es (start manager) →
        answersOn fleet' x' es' (start manager') = answersOn fleet x es (start manager) ∧
          Alike (s'.manager x') (s.manager x) := by
  refine ⟨?_, ?_, fun ν' _ fleet' manager' x' es' s' tr' hrun' hmanager hcalls => ?_⟩
  · obtain ⟨m, hmatched, rfl⟩ := (follows_performed fleet x).run hrun rfl
    exact hmatched []
  · obtain ⟨m, hmatched, halike⟩ := (follows fleet x).run hrun (Alike.refl (manager x))
    exact ⟨m, hmatched [], halike⟩
  · have hinit' : Alike (manager' x') (manager x) := by
      rw [hmanager]
      exact Alike.refl (manager x)
    obtain ⟨hanswers, m, halike, halike'⟩ := (follows fleet x).agree (follows fleet' x') hrun hrun'
      (Alike.refl (manager x)) hinit' hcalls
    exact ⟨hanswers, halike'.trans halike.symm⟩

end AnyChannel

/-- A node opens the lobby and subscribes, and no other node does anything. -/
def quietLobby (y : ν) : List (Event ν) := [.use y (.getOrCreate ['l']), .use y (.subscribe 0)]

/-- A node that is sent a broadcast of another one answers its callers as if it had not been. -/
theorem localHalf_undisturbed_lobbyBroadcast : ∃ s tr s' tr',
    (machine twoNodes).run (lobbyBroadcast 0 1) (start fun _ => .empty 16 none, []) = some (s, tr) ∧
      (machine twoNodes).run (quietLobby 1) (start fun _ => .empty 16 none, []) = some (s', tr') ∧
      pushes tr 1 0 = [.binary [7]] ∧ pushes tr' 1 0 = [] ∧
      answersOn twoNodes 1 (quietLobby 1) (start fun _ => .empty 16 none) =
        answersOn twoNodes 1 (lobbyBroadcast 0 1) (start fun _ => .empty 16 none) ∧
      Alike (s'.manager 1) (s.manager 1) := by
  have hseen : ((machine twoNodes).run (lobbyBroadcast 0 1) (start fun _ => .empty 16 none, [])).any
      (fun c => decide (pushes c.2 1 0 = [.binary [7]])) := by decide
  have hseen' : ((machine twoNodes).run (quietLobby 1) (start fun _ => .empty 16 none, [])).any
      (fun c => decide (pushes c.2 1 0 = [])) := by decide
  have hcalls : callsOn twoNodes 1 (quietLobby 1) (start fun _ => .empty 16 none) =
      callsOn twoNodes 1 (lobbyBroadcast 0 1) (start fun _ => .empty 16 none) := by decide
  obtain ⟨⟨s, tr⟩, hrun, hpushes⟩ := (Option.any_eq_true _ _).1 hseen
  obtain ⟨⟨s', tr'⟩, hrun', hpushes'⟩ := (Option.any_eq_true _ _).1 hseen'
  obtain ⟨hanswers, halike⟩ := (localHalf_undisturbed twoNodes (fun _ => .empty 16 none) 1 hrun).2.2
    (Fin 2) twoNodes (fun _ => .empty 16 none) 1 (quietLobby 1) s' tr' hrun' rfl hcalls
  exact ⟨s, tr, s', tr', hrun, hrun', of_decide_eq_true hpushes, of_decide_eq_true hpushes',
    hanswers, halike⟩

end WsKit.Cluster
