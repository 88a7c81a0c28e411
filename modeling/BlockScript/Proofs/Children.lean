import BlockScript.Proofs.Moments
/-!
The children of a run, as its record has them.

Between the moment a child is reported and the moment it is linked nothing can happen, so every
history is made of single events and of children that are reported and linked. The record then says
of the children what the site said of them.
-/

namespace BlockScript

open Log

variable {β ε α γ : Type}

namespace Event

/-- The child the site reported. -/
def child? : Event β → Option Child
  | .joined child => some child
  | _ => none

/-- What is to be noted of an event for replay: a child when it is reported, and else what is
attached. -/
def noted? : Event β → Option Attachment
  | .joined child => some ⟨"child-script", .object [("child_id", .string child.id)]⟩
  | .attached m => if m.kind = "child-script" then none else some ⟨m.kind, m.state⟩
  | _ => none

/-- Events that concern no child. -/
def Apart : Event β → Prop
  | .joined _ => False
  | .attached m => ∃ key value, m = .tag key value
  | _ => True

/-- Histories in which every child is linked as soon as it is reported. -/
inductive Linked : List (Event β) → Prop
  | nil : Linked []
  | other {e : Event β} {rest : List (Event β)} (apart : e.Apart) (later : Linked rest) :
      Linked (e :: rest)
  | child (child : Child) {rest : List (Event β)} (later : Linked rest) :
      Linked (.joined child :: .attached (.childScript child.id) :: rest)

theorem Linked.append {es fs : List (Event β)} (h : Linked es) (k : Linked fs) :
    Linked (es ++ fs) := by
  induction h with
  | nil => exact k
  | other apart _ ih => exact .other apart ih
  | child c _ ih => exact .child c ih

theorem linked_of_apart {es : List (Event β)} (apart : ∀ e ∈ es, e.Apart) : Linked es := by
  induction es with
  | nil => exact .nil
  | cons e es ih =>
    have rest : ∀ e ∈ es, e.Apart := fun e mem => apart e (List.mem_cons_of_mem _ mem)
    exact .other (apart e List.mem_cons_self) (ih rest)

end Event

namespace Action

/-- Actions that start no child and link none. -/
def Childless : Action β → Prop
  | .spawn _ _ => False
  | .attach m => ∃ key value, m = .tag key value
  | _ => True

end Action

namespace Environment

open Event (Linked)

variable (env : Environment β ε)

theorem events_linked {a : Action β} (childless : a.Childless) (s : RunState) (w : World ε) :
    Linked (env.events a s w) := by
  apply Event.linked_of_apart
  intro e mem
  obtain told | changed := List.mem_append.mp mem
  · obtain ⟨n, -, rfl⟩ := List.mem_map.mp told
    trivial
  · cases a with
    | assign | assignGlobal =>
      rw [List.mem_singleton.mp changed]
      trivial
    | attach m =>
      rw [List.mem_singleton.mp changed]
      exact childless
    | spawn => cases childless
    | _ => cases changed

theorem compositional_linked :
    Program.Compositional (fun _ p => ∀ s w, Linked (env.history p s w)) Action.Childless where
  done _ _ _ := .nil
  act a childless s w := by
    rw [history_perform]
    exact env.events_linked childless s w
  bind first rest s w := by
    rw [history_bind]
    refine (first s w).append ?_
    split
    · exact rest _ _ _
    · exact .nil
  inScope body s w := by
    rw [history_inScope]
    exact body _ w

theorem history_attach (m : Modifier) (x : α) (s : RunState) (w : World ε) :
    env.history (Program.perform (.attach m) >>= fun _ => pure x) s w = [.attached m] := by
  rw [history_bind, history_perform]
  simp only [events, notices, effects, ite_self, List.map_nil, List.nil_append]
  split <;> rfl

/-- A child that is reported is linked, and one that is not is not. -/
theorem spawnChild_linked (name : String) (presets : Bindings) (s : RunState) (w : World ε) :
    Linked (env.history (Program.spawnChild name presets) s w) := by
  have look : Linked (env.history (Program.perform .checkAbort) s w) := by
    rw [history_perform]
    exact env.events_linked (a := .checkAbort) trivial s w
  have asked (s : RunState) (w : World ε) :
      Linked ((env.notices (.spawn name presets) s w.peers).map Event.told) :=
    Event.linked_of_apart (by simp [Event.Apart])
  rw [Program.spawnChild, history_bind]
  refine look.append ?_
  split
  · next t v ran =>
    rw [history_bind, history_perform, run_perform, events, List.append_assoc]
    refine (asked t v).append ?_
    simp only [effects, perform]
    rcases (env.race (env.site.spawn name presets) v).1 with (e | child) | _ | _ | _
    · exact .nil
    · change Linked ([.joined child] ++ env.history _ _ _)
      rw [history_attach]
      exact .child child .nil
    · exact .nil
    · exact .nil
    · exact .nil
  · exact .nil

end Environment

theorem Block.program_linked (b : Block Stock) (env : Environment Stock ε) (s : RunState)
    (w : World ε) : Event.Linked (env.history b.program s w) := by
  have own {header : Header Stock} {k : Stock} {a : Action Stock} (h : k.Performs header a) :
      a.Childless := by
    obtain rfl | rfl | ⟨count, rfl⟩ | ⟨service, args, rfl⟩ | tagged |
        ⟨name, -, rfl | ⟨value, rfl | rfl⟩⟩ := Stock.performs_cases h
    · trivial
    · trivial
    · trivial
    · trivial
    · obtain ⟨key, value, rfl⟩ := tagged
      exact ⟨key, value.toJson, rfl⟩
    · trivial
    · trivial
    · trivial
  have c := env.compositional_linked
  exact b.program_holds c (fun b => c.enter (b := b) trivial trivial)
    (fun b => c.act (.stop .leave b) trivial) (fun _ _ _ => env.spawnChild_linked)
    (fun _ _ _ performs => own performs) s w

namespace Footprint

/-- What a footprint says of the children and the attachments of the history that led to it. -/
structure Covers (f : Footprint) (es : List (Event β)) (g : Footprint) : Prop where
  unfinished : g.log.finished = none
  groupComplete : g.log.groupComplete = f.log.groupComplete
  children : g.log.children = f.log.children ++
    (((es.filterMap Event.child?).map Child.id).filter (· ∉ f.log.children)).eraseDups
  modifiers : g.log.modifiers = f.log.modifiers ++ es.filterMap Event.noted?
  settled : g.settled = (f.settled && (es.filterMap Event.child?).all (·.outcome.isTerminal))

namespace Covers

theorem nil {f : Footprint} (unfinished : f.log.finished = none) :
    f.Covers ([] : List (Event β)) f :=
  ⟨unfinished, rfl, by simp, by simp, by simp⟩

theorem append {f g h : Footprint} {es fs : List (Event β)} (one : f.Covers es g)
    (two : g.Covers fs h) : f.Covers (es ++ fs) h where
  unfinished := two.unfinished
  groupComplete := two.groupComplete.trans one.groupComplete
  children := by
    -- What the second part adds is not among the old children, nor among those of the first part.
    have apart (ids : List String) : ids.filter (· ∉ g.log.children) =
        (ids.filter (· ∉ f.log.children)).removeAll
          (((es.filterMap Event.child?).map Child.id).filter (· ∉ f.log.children)) := by
      rw [List.removeAll, List.filter_filter]
      apply List.filter_congr
      intro id _
      simp only [one.children, List.mem_append, List.mem_eraseDups, List.elem_eq_mem]
      by_cases old : id ∈ f.log.children <;> simp [old]
    rw [two.children, apart, one.children, List.append_assoc, ← List.eraseDups_append,
      List.filterMap_append, List.map_append, List.filter_append]
  modifiers := by
    rw [two.modifiers, one.modifiers, List.filterMap_append, List.append_assoc]
  settled := by
    rw [two.settled, one.settled, List.filterMap_append, List.all_append, Bool.and_assoc]

end Covers

end Footprint

namespace Event

/-- An event apart leaves the children and the group alone. -/
theorem Apart.covers {e : Event β} (apart : e.Apart) {f : Footprint}
    (unfinished : f.log.finished = none) : f.Covers [e] (mark f e) := by
  have childless : [e].filterMap child? = [] := by
    cases e with
    | joined => cases apart
    | _ => rfl
  suffices kept : (mark f e).log.finished = none ∧
      (mark f e).log.groupComplete = f.log.groupComplete ∧
      (mark f e).log.children = f.log.children ∧
      (mark f e).log.modifiers = f.log.modifiers ++ [e].filterMap noted? ∧
      (mark f e).settled = f.settled by
    obtain ⟨still, group, children, modifiers, settled⟩ := kept
    exact ⟨still, group, by simp [childless, children], modifiers, by simp [childless, settled]⟩
  have unnoted : f.log.modifiers = f.log.modifiers ++ [] := (List.append_nil _).symm
  cases e with
  | told => exact ⟨unfinished, rfl, rfl, unnoted, rfl⟩
  | joined => cases apart
  | assigned frame name value =>
    simp only [mark]
    split <;> exact ⟨unfinished, rfl, rfl, unnoted, rfl⟩
  | assignedGlobal name value =>
    simp only [mark]
    split <;> exact ⟨unfinished, rfl, rfl, unnoted, rfl⟩
  | attached m =>
    obtain ⟨key, value, rfl⟩ := apart
    have ongoing : f.log.isFinished = false := by simp [LogRecord.isFinished, unfinished]
    have tagged : (attach (.tag key value) f.log).2 =
        { f.log.annotate key value with
          modifiers := f.log.modifiers ++ [⟨"tag", (Modifier.tag key value).state⟩] } := by
      rw [attach, ongoing]
      rfl
    rw [mark, tagged]
    exact ⟨unfinished, rfl, rfl, rfl, rfl⟩

theorem covers_child (c : Child) {f : Footprint} (unfinished : f.log.finished = none) :
    f.Covers ([.joined c, .attached (.childScript c.id)] : List (Event β))
      (mark (mark f (.joined c : Event β)) (.attached (.childScript c.id) : Event β)) := by
  have ongoing : f.log.isFinished = false := by simp [LogRecord.isFinished, unfinished]
  have joined : ([.joined c, .attached (.childScript c.id)] : List (Event β)).filterMap child? =
      [c] := rfl
  have linked : (attach (.childScript c.id) f.log).2 =
      { f.log with
        children := if c.id ∈ f.log.children then f.log.children else f.log.children ++ [c.id]
        modifiers :=
          f.log.modifiers ++ [⟨"child-script", (Modifier.childScript c.id).state⟩] } := by
    rw [attach, ongoing]
    simp only [Bool.false_eq_true, ↓reduceIte, Modifier.childScript, LogRecord.linkChild]
    split <;> rfl
  rw [mark, mark, linked]
  refine ⟨unfinished, rfl, ?_, rfl, by rw [joined]; simp⟩
  rw [joined]
  by_cases old : c.id ∈ f.log.children
  · simp [old]
  · simp [old, List.eraseDups_cons]

theorem Linked.covers {es : List (Event β)} (h : Linked es) {f : Footprint}
    (unfinished : f.log.finished = none) : f.Covers es (es.foldl mark f) := by
  induction h generalizing f with
  | nil => exact .nil unfinished
  | other apart _ ih =>
    have first := apart.covers unfinished
    exact first.append (ih first.unfinished)
  | child c _ ih =>
    have first := covers_child (β := β) c unfinished
    exact first.append (ih first.unfinished)

end Event

namespace Script

/-- The children that were started during a run, as the site reported them. -/
def childrenOf (script : Script Stock) (env : Environment Stock ε) (w : World ε) : List Child :=
  (script.history env w).filterMap Event.child?

end Script

/-- However a run ends, its record names the children that the site reported, each where it first
was, and holds one modifier for each report, in its place among the tags. It says nothing of the
group when there are none; otherwise the group is complete if every report was of a child that had
come to an end. -/
theorem record_accounts_for_children {ε : Type} {script : Script Stock}
    {env : Environment Stock ε} {w w' : World ε} {run : Run}
    (ended : script.run env w = some (run, w')) :
    run.log.children = ((script.childrenOf env w).map Child.id).eraseDups ∧
    run.log.modifiers = (script.history env w).filterMap Event.noted? ∧
    run.log.groupComplete =
      if (script.childrenOf env w).isEmpty then none
      else some ((script.childrenOf env w).all (·.outcome.isTerminal)) := by
  obtain ⟨evaluated, s, v, time, root, log⟩ := Script.run_log ended
  have linked : Event.Linked (script.history env w) :=
    script.root.program_linked env (script.initial env w) (script.limited w)
  have covers := linked.covers (f := (script.initial env w).footprint) rfl
  rw [← Script.evaluateRoot_footprint root] at covers
  have children : s.log.children = ((script.childrenOf env w).map Child.id).eraseDups :=
    covers.children.trans (by simp [RunState.footprint, Script.initial, LogRecord.start,
      Script.childrenOf])
  have settled : s.settled = (script.childrenOf env w).all (·.outcome.isTerminal) :=
    covers.settled.trans (Bool.true_and _)
  have group : s.log.groupComplete = none := covers.groupComplete
  have empty : s.log.children.isEmpty = (script.childrenOf env w).isEmpty := by
    rw [children]
    cases script.childrenOf env w with
    | nil => rfl
    | cons c cs => simp [List.eraseDups_cons]
  rw [log]
  exact ⟨children, covers.modifiers, by simp only [empty, settled, group]⟩

/-- A site that reports one child twice, first at its end and then at work, and then no more. -/
def reportingTwice : Environment Stock Nat where
  site := { Site.bare [] with
    spawn := fun _ _ n =>
      match n with
      | 0 => (.now (.ok ⟨"c", .success⟩), 1)
      | 1 => (.now (.ok ⟨"c", .active⟩), 2)
      | n => (.never, n) }
  debugger := none
  aborted _ := false
  abort n := n
  react n := n

/-- A run that is cut off while it waits for its third child. The child reported twice is named
once, both reports are noted around the tag, and the second keeps the group from being complete. -/
theorem reported_twice_then_cut_off :
    let literal : Block Stock := .mk ⟨"text", none, .text, [("TEXT", .string "x")], []⟩ [] none
    let child (next : Option (Block Stock)) : Block Stock :=
      .mk ⟨"script_child", none, .childScript, [("SCRIPT", .string "s")], []⟩ [] next
    let tag (next : Block Stock) : Block Stock :=
      .mk ⟨"log_tag", none, .logTag, [("KEY", .string "k")], []⟩ [("VALUE", literal)] next
    let script : Script Stock := ⟨child (tag (child (child none))), { timeout := some 5 }⟩
    let w : World Nat := { peers := 0, origin := ⟨0, 0⟩ }
    ∃ run w', script.run reportingTwice w = some (run, w') ∧ run.error = some (.timeout 5) ∧
      script.childrenOf reportingTwice w = [⟨"c", .success⟩, ⟨"c", .active⟩] ∧
      run.log.children = ["c"] ∧
      run.log.modifiers.map Attachment.kind = ["child-script", "tag", "child-script"] ∧
      run.log.groupComplete = some false ∧
      run.log.modifiers = (script.history reportingTwice w).filterMap Event.noted? := by
  intro literal child tag script w
  have timedOut : (script.run reportingTwice w).map (fun x => x.1.error) =
      some (some (.timeout 5)) := by
    decide +kernel
  have reported : script.childrenOf reportingTwice w = [⟨"c", .success⟩, ⟨"c", .active⟩] := by
    decide +kernel
  have kinds : ((script.history reportingTwice w).filterMap Event.noted?).map Attachment.kind =
      ["child-script", "tag", "child-script"] := by
    decide +kernel
  obtain ⟨⟨run, w'⟩, ended, error⟩ := Option.map_eq_some_iff.mp timedOut
  obtain ⟨children, modifiers, group⟩ := record_accounts_for_children ended
  rw [reported] at children group
  rw [← modifiers] at kinds
  exact ⟨run, w', ended, error, reported, children, kinds, group, modifiers⟩

end BlockScript
