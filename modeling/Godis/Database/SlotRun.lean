import Godis.Database.Access

/-!
# Running programs for one key

What each method does to a slot, and the typed access at a slot that has not expired.
-/

namespace Godis.Database

open Golang Program List

variable {F α : Type} {env : Env F}

namespace Slot

def withValue (slot : Slot F) (value : Value F) : Slot F :=
  { slot with value := some value }

def withDeadline (slot : Slot F) (deadline : Option Int) : Slot F :=
  { slot with deadline := deadline }

def Live (now : Int) (slot : Slot F) : Prop :=
  slot.expired now = false

instance (now : Int) (slot : Slot F) : Decidable (slot.Live now) :=
  inferInstanceAs (Decidable (_ = _))

theorem live_of_none {now : Int} {slot : Slot F} (none_ : slot.deadline = none) :
    slot.Live now := by
  unfold Live expired
  rw [none_]

end Slot

theorem run_events {program : SlotProg F α} {slot : Slot F} {events : List SlotEvent} :
    program.run (slotHandle env) ⟨slot, events⟩ =
      ((program.run (slotHandle env) ⟨slot, []⟩).1,
        ⟨(program.run (slotHandle env) ⟨slot, []⟩).2.slot,
          events ++ (program.run (slotHandle env) ⟨slot, []⟩).2.events⟩) := by
  have alike : ∀ (op : SlotOp F) (state alone : SlotState F),
      state.slot = alone.slot ∧ state.events = events ++ alone.events →
        (slotHandle env op state).1 = (slotHandle env op alone).1 ∧
          (slotHandle env op state).2.slot = (slotHandle env op alone).2.slot ∧
            (slotHandle env op state).2.events =
              events ++ (slotHandle env op alone).2.events := by
    rintro op _ _ ⟨sameSlot, before⟩
    cases op with
    | look method | change method =>
      simp only [slotHandle, SlotState.after, sameSlot, before, append_assoc, and_self]
    | log line =>
      refine ⟨rfl, sameSlot, ?_⟩
      simp only [slotHandle, before, append_assoc]
    | ask question => exact ⟨rfl, sameSlot, before⟩
  have start : (⟨slot, events⟩ : SlotState F).slot = (⟨slot, []⟩ : SlotState F).slot ∧
      (⟨slot, events⟩ : SlotState F).events = events ++ (⟨slot, []⟩ : SlotState F).events :=
    ⟨rfl, (append_nil events).symm⟩
  have related := Prog.run_related (fun state alone : SlotState F =>
    state.slot = alone.slot ∧ state.events = events ++ alone.events) alike program start
  refine Prod.ext related.1 ?_
  obtain ⟨sameSlot, before⟩ := related.2
  generalize (program.run (slotHandle env) ⟨slot, events⟩).2 = state at sameSlot before
  cases state with
  | mk slot events =>
    cases sameSlot
    cases before
    rfl

section Methods

variable (slot : Slot F) (events : List SlotEvent)

theorem run_change (method : Change F) :
    (Prog.ask (SlotOp.change method) : SlotProg F _).run (slotHandle env) ⟨slot, events⟩ =
      (.ok (method.exec slot).answer,
        ⟨(method.exec slot).slot, events ++ (method.exec slot).notes.map .note⟩) :=
  rfl

theorem run_change_silent (method : Change F) (silent : (method.exec slot).notes = []) :
    (Prog.ask (SlotOp.change method) : SlotProg F _).run (slotHandle env) ⟨slot, events⟩ =
      (.ok (method.exec slot).answer, ⟨(method.exec slot).slot, events⟩) := by
  rw [run_change, silent, map_nil, append_nil]

variable {value : Value F}

@[simp]
theorem run_putEntity_none (none_ : slot.value = none) :
    (putEntity value).run (slotHandle env) ⟨slot, events⟩ =
      (.ok 1, ⟨slot.withValue value, events ++ [.note .inserted]⟩) := by
  obtain ⟨_, _, _⟩ := slot
  cases none_
  exact run_change _ events (.put value)

@[simp]
theorem run_mutate :
    (mutate value).run (slotHandle env) ⟨slot, events⟩ =
      (.ok (), ⟨{ slot with value := slot.value.map fun _ => value }, events⟩) :=
  run_change_silent slot events (.mutate value) rfl

theorem run_remove :
    remove.run (slotHandle env) ⟨slot, events⟩ =
      (.ok (), ⟨slot.remove, events ++ [.note (.deleted slot.value.isSome)]⟩) :=
  rfl

@[simp]
theorem run_expire {deadline : Int} :
    (expire deadline).run (slotHandle env) ⟨slot, events⟩ =
      (.ok (), ⟨slot.withDeadline (some deadline), events⟩) :=
  run_change_silent slot events (.expire deadline) rfl

@[simp]
theorem run_persist :
    persist.run (slotHandle env) ⟨slot, events⟩ =
      (.ok (), ⟨slot.withDeadline none, events⟩) :=
  run_change_silent slot events .persist rfl

end Methods

/-! ## Programs that only look -/

def liveAnswer (env : Env F) (slot : Slot F) : (op : SlotLook F) → op.Answer
  | .look method => (method.exec env.now slot).answer
  | .ask question => env.ask question

variable {now : Int} {slot : Slot F} {key : Key} {space : Space F}

theorem exec_live (live : slot.Live now) (method : Look) :
    (method.exec now slot).slot = slot ∧ (method.exec now slot).notes = [] := by
  have notExpired : slot.expired now = false := live
  cases method with
  | getEntity =>
    unfold Look.exec
    cases slot.value with
    | none => exact ⟨rfl, rfl⟩
    | some value => simp [notExpired]
  | peek | deadline | version => exact ⟨rfl, rfl⟩
  | isExpired => simp [Look.exec, notExpired]

def SlotReader.eval (env : Env F) (slot : Slot F) (program : SlotReader F α) : Except Stop α :=
  (program.run (fun op (_ : Unit) => (liveAnswer env slot op, ())) ()).1

theorem run_look (live : slot.Live env.now) {events : List SlotEvent} {program : SlotReader F α} :
    (look program).run (slotHandle env) ⟨slot, events⟩ =
      (program.eval env slot, ⟨slot, events⟩) := by
  have alike : ∀ (op : SlotLook F) (state : SlotState F) (token : Unit),
      state = ⟨slot, events⟩ ∧ token = () →
        SlotLook.answerOf op (slotHandle env op.toOp state).1 = (liveAnswer env slot op, ()).1 ∧
          (slotHandle env op.toOp state).2 = ⟨slot, events⟩ ∧ (liveAnswer env slot op, ()).2 = () := by
    rintro op _ _ ⟨rfl, rfl⟩
    cases op with
    | look method =>
      obtain ⟨sameSlot, noNotes⟩ := exec_live live method
      refine ⟨rfl, ?_, rfl⟩
      simp only [SlotLook.toOp, slotHandle, SlotState.after, sameSlot, noNotes, map_nil,
        append_nil]
    | ask question => exact ⟨rfl, rfl, rfl⟩
  have related := Prog.run_translate_related (fun (state : SlotState F) (token : Unit) =>
    state = ⟨slot, events⟩ ∧ token = ()) alike program ⟨rfl, rfl⟩
  exact Prod.ext related.1 related.2.1

/-! ## Typed access -/

def viewed (view : Value F → Option α) : Option (Value F) → Except Reply (Option α)
  | none => .ok none
  | some value =>
    match view value with
    | none => .error .wrongTypeErr
    | some data => .ok (some data)

theorem answer_getEntity (live : slot.Live now) :
    (Look.exec now slot .getEntity).answer = slot.value := by
  obtain ⟨value, deadline, version⟩ := slot
  cases value with
  | none => rfl
  | some value =>
    have notExpired : ¬ Slot.expired now ⟨some value, deadline, version⟩ := by
      rw [show Slot.expired now _ = false from live]
      exact Bool.false_ne_true
    simp only [Look.exec, if_neg notExpired]
    rfl

theorem run_getAs_answer {events : List SlotEvent} {view : Value F → Option α} :
    (look (getAs view)).run (slotHandle env) ⟨slot, events⟩ =
      (.ok (viewed view (Look.exec env.now slot .getEntity).answer),
        ⟨(Look.exec env.now slot .getEntity).slot,
          events ++ (Look.exec env.now slot .getEntity).notes.map .note⟩) := by
  change (look (match (Look.exec env.now slot .getEntity).answer with
    | none => return .ok none
    | some value => _ : SlotReader F (Except Reply (Option α)))).run (slotHandle env) _ = _
  cases (Look.exec env.now slot .getEntity).answer with
  | none => rfl
  | some value =>
    simp only [viewed]
    cases view value with
    | none => rfl
    | some data => rfl

theorem run_getAs (live : slot.Live env.now) (events : List SlotEvent) (view : Value F → Option α) :
    (look (getAs view)).run (slotHandle env) ⟨slot, events⟩ =
      (.ok (viewed view slot.value), ⟨slot, events⟩) := by
  obtain ⟨sameSlot, noNotes⟩ := exec_live live .getEntity
  rw [run_getAs_answer, answer_getEntity live, sameSlot, noNotes, map_nil, append_nil]

/-! ## Looking at a key of the space -/

theorem lookAt_eq_onKey {program : SlotReader F α} :
    lookAt key program = onKey key (look program) := by
  induction program with
  | pure value => rfl
  | call op next ih =>
    cases op with
    | look method => exact congrArg (Prog.call (DbOp.look key method)) (funext ih)
    | ask question => exact congrArg (Prog.call (DbOp.ask question)) (funext ih)
  | stop reason => rfl

theorem run_lookAt (live : (space.slots key).Live env.now) (program : SlotReader F α) :
    (lookAt key program).run (dbHandle env) space =
      (program.eval env (space.slots key), space) := by
  rw [lookAt_eq_onKey, run_onKey, Space.read, run_look live]
  exact Prod.ext rfl (space.write_read key)

theorem run_lookAt_getAs (live : (space.slots key).Live env.now) {view : Value F → Option α} :
    (lookAt key (getAs view)).run (dbHandle env) space =
      (.ok (viewed view (space.slots key).value), space) := by
  rw [lookAt_eq_onKey, run_onKey, Space.read, run_getAs live]
  exact Prod.ext rfl (space.write_read key)

end Godis.Database



