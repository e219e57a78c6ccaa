import SpacedNames.Proofs.Scoping.Handles
import SpacedNames.Resolver.Session

/-!
# Runs of a resolver, and when commands fail

* `Resolver.scopeCommand?`: the one operation on the environment that a command comes to, if it
  comes to any. `exec_environment`: it does nothing else to the environment.
* `Resolver.run_environment`: a run of a resolver is a run of its environment.
* `Resolver.Reachable`: the resolvers that a parse can come to. `Reachable.environment_eq`: their
  environments are those that a run leads to from the language's own, so their live scopes are one
  chain (`Reachable.chained`).

A scope can be closed as long as one is left that was opened, and a label popped as long as one is
left that was pushed. This is told by the replies of the run so far, not by the stacks.

* `Resolver.Balanced`: the replies tell how much is on the two stacks, and what lies at the bottom
  stays there. Each command keeps this (`Balanced.exec`).
* `Balanced.fault_closeScope_iff`, `Balanced.fault_popLabel_iff`: so they tell when a pop fails.
* `fault_withText_iff`: besides these, only a node that has no text makes a command fail.
* `Resolver.exec_of_fault`: a command that fails leaves everything as it was.
* `Resolver.run_failures`: all of this, after every run.
-/

namespace SpacedNames

/-! ## Runs -/

namespace Resolver

/-- The operation on the environment that a command comes to. A node without a text is not
declared. -/
def scopeCommand? (r : Resolver) : Command → Option Environment.Command
  | .openScope => some (.openScope r.labels.top)
  | .closeScope => some .closeScope
  | .declare spelling => some (.declare (.declared spelling))
  | .declareNode node => node.text.toOption.map fun spelling => .declare (.declared spelling)
  | _ => none

/-- What a run comes to on the environment. The label of a scope is known when it is opened. -/
def scopeCommands (r : Resolver) : List Command → List Environment.Command
  | [] => []
  | command :: rest =>
    (r.scopeCommand? command).toList ++ (r.exec command).resolver.scopeCommands rest

/-- **A command changes the environment by its own operation only.** -/
theorem exec_environment (r : Resolver) (command : Command) :
    (r.exec command).resolver.environment =
      r.environment.run (r.scopeCommand? command).toList := by
  cases command with
  | pushNode node =>
    rw [exec, withText]
    split <;> rfl
  | declareNode node =>
    rw [exec, withText, scopeCommand?]
    split
    · rename_i h
      rw [h]
      rfl
    · rename_i h
      rw [h]
      rfl
  | openScope | closeScope | pushLabel | popLabel | declare | start | offer | longestMatch
  | recognize | setSink => rfl

theorem run_environment (r : Resolver) (commands : List Command) :
    (r.run commands).environment = r.environment.run (r.scopeCommands commands) := by
  induction commands generalizing r with
  | nil => rfl
  | cons command rest ih =>
    have hrun : r.run (command :: rest) = (r.exec command).resolver.run rest := rfl
    rw [hrun, ih, exec_environment, scopeCommands, Environment.run_append]

/-! ## Reachable resolvers -/

/-- A resolver that some commands lead to from the start of a parse. -/
def Reachable (r : Resolver) : Prop :=
  ∃ settings commands, (ofSettings settings).run commands = r

variable {r : Resolver}

/-- The global scope is the first one that a run opens. -/
theorem environment_run_ofSettings (settings : Settings) (commands : List Command) :
    ((ofSettings settings).run commands).environment = (language settings).run
      (.openScope settings.globalLabel :: (ofSettings settings).scopeCommands commands) := by
  rw [run_environment]
  rfl

theorem Reachable.environment_eq (h : r.Reachable) :
    ∃ settings commands, r.environment = (language settings).run commands := by
  obtain ⟨settings, commands, rfl⟩ := h
  exact ⟨settings, _, environment_run_ofSettings settings commands⟩

theorem fresh_language (settings : Settings) :
    Environment.Fresh settings.builtins (language settings) :=
  .withBuiltins settings.rootLabel settings.builtins

/-- In every reachable resolver the live scopes are one chain. -/
theorem Reachable.chained (h : r.Reachable) : r.environment.Chained := by
  obtain ⟨settings, commands, he⟩ := h.environment_eq
  rw [he]
  exact (fresh_language settings).chained.run commands

end Resolver

/-! ## The two stacks -/

namespace Environment

variable {e : Environment}

theorem exec_of_failed {command : Command} {fault : Fault}
    (h : (e.exec command).reply = .failed fault) : (e.exec command).environment = e := by
  cases command with
  | openScope label => cases h
  | closeScope =>
    rw [exec] at h ⊢
    split at h
    · cases h
    · rfl
  | declare name => cases h

theorem length_inner_declare (e : Environment) (name : Name) :
    (e.declare name).2.scopes.inner.length = e.scopes.inner.length := by
  have hl := e.scopes.toList_modify e.current (·.bind name)
  have hlen := congrArg List.length hl
  rw [List.length_modify] at hlen
  exact Nat.succ.inj hlen

theorem Chained.root_label_exec (h : e.Chained) (command : Command) :
    (e.exec command).environment.scopes.root.label = e.scopes.root.label :=
  (h.root_exec ⟨rfl, rfl, rfl⟩ command).label_eq

end Environment

namespace LabelStack

variable {s : LabelStack}

theorem exec_of_failed {command : Command} {fault : Fault}
    (h : (s.exec command).reply = .failed fault) : (s.exec command).labels = s := by
  cases command with
  | push label => cases h
  | pop =>
    rw [exec] at h ⊢
    split at h
    · cases h
    · rfl

/-- What popping comes to: the seed is refused and nothing changes, or the top label goes. -/
theorem exec_pop (s : LabelStack) :
    (s.pushed = [] ∧ s.exec .pop = ⟨s, .failed (.belowBottom .label s.seed), []⟩) ∨
      ∃ label rest, s.pushed = label :: rest ∧
        s.exec .pop = ⟨{ s with pushed := rest }, .popped label, [.labelPopped label]⟩ := by
  obtain ⟨seed, pushed⟩ := s
  cases pushed with
  | nil => exact .inl ⟨rfl, rfl⟩
  | cons label rest => exact .inr ⟨label, rest, rfl, rfl⟩

end LabelStack

namespace Resolver

/-! ## Replies -/

/-- What the commands are answered, in order. -/
def replies (r : Resolver) : List Command → List Reply
  | [] => []
  | command :: rest => (r.exec command).reply :: (r.exec command).resolver.replies rest

namespace Reply

/-- A scope was opened. -/
def isOpened : Reply → Bool
  | scopes (.opened _) => true
  | _ => false

/-- A scope was closed. -/
def isClosed : Reply → Bool
  | scopes (.closed _) => true
  | _ => false

/-- A label was pushed. -/
def isPushed : Reply → Bool
  | labels .pushed => true
  | _ => false

/-- A label was popped. -/
def isPopped : Reply → Bool
  | labels (.popped _) => true
  | _ => false

end Reply

/-! ## Replies and stacks -/

variable {r : Resolver} {settings : Settings} {before : List Reply} {fault : Fault}

/-- The replies tell how many scopes are open above the root and how many labels are above the seed.
Root and seed are those of the settings. -/
structure Balanced (settings : Settings) (before : List Reply) (r : Resolver) : Prop where
  chained : r.environment.Chained
  root : r.environment.scopes.root.label = settings.rootLabel
  seed : r.labels.seed = settings.seedLabel
  /-- The global scope was opened before the first reply. -/
  scopes : r.environment.scopes.inner.length + before.countP Reply.isClosed =
    before.countP Reply.isOpened + 1
  labels : r.labels.pushed.length + before.countP Reply.isPopped = before.countP Reply.isPushed

theorem balanced_ofSettings (settings : Settings) : Balanced settings [] (ofSettings settings) where
  chained := (fresh_language settings).chained.openScope settings.globalLabel
  root := Environment.foldl_bind_eq (f := Scope.label) (fun _ _ => rfl) settings.builtins
    (ScopeStack.ofRoot settings.rootLabel).root
  seed := rfl
  scopes := rfl
  labels := rfl

/-- One more reply has to tell what became of the stacks meanwhile. -/
theorem Balanced.concat (h : Balanced settings before r) {next : Resolver} {reply : Reply}
    (hc : next.environment.Chained)
    (hroot : next.environment.scopes.root.label = r.environment.scopes.root.label)
    (hseed : next.labels.seed = r.labels.seed)
    (hscopes : next.environment.scopes.inner.length + [reply].countP Reply.isClosed =
      r.environment.scopes.inner.length + [reply].countP Reply.isOpened)
    (hlabels : next.labels.pushed.length + [reply].countP Reply.isPopped =
      r.labels.pushed.length + [reply].countP Reply.isPushed) :
    Balanced settings (before ++ [reply]) next := by
  have hs := h.scopes
  have hl := h.labels
  refine ⟨hc, hroot.trans h.root, hseed.trans h.seed, ?_, ?_⟩
  · rw [List.countP_append, List.countP_append]
    omega
  · rw [List.countP_append, List.countP_append]
    omega

theorem Balanced.execScopes (h : Balanced settings before r) (command : Environment.Command) :
    Balanced settings (before ++ [(r.execScopes command).reply])
      (r.execScopes command).resolver := by
  have hc := h.chained.exec command
  have hroot := h.chained.root_label_exec command
  cases command with
  | openScope label =>
    have hlen : (r.environment.openScope label).2.scopes.inner.length =
        r.environment.scopes.inner.length + 1 := List.length_append
    exact h.concat hc hroot rfl hlen rfl
  | closeScope =>
    obtain ⟨-, he⟩ | ⟨front, s, hi, he⟩ := h.chained.exec_closeScope
    · rw [Resolver.execScopes, he]
      exact h.concat h.chained rfl rfl rfl rfl
    · have hlen : front.length + 1 = r.environment.scopes.inner.length := by
        rw [hi, List.length_append, List.length_singleton]
      rw [he] at hc
      rw [Resolver.execScopes, he]
      exact h.concat hc rfl rfl hlen rfl
  | declare name => exact h.concat hc hroot rfl (r.environment.length_inner_declare name) rfl

theorem Balanced.execLabels (h : Balanced settings before r) (command : LabelStack.Command) :
    Balanced settings (before ++ [(r.execLabels command).reply])
      (r.execLabels command).resolver := by
  cases command with
  | push label => exact h.concat h.chained rfl rfl rfl rfl
  | pop =>
    obtain ⟨-, he⟩ | ⟨label, rest, hp, he⟩ := r.labels.exec_pop
    · rw [Resolver.execLabels, he]
      exact h.concat h.chained rfl rfl rfl rfl
    · have hlen : rest.length + 1 = r.labels.pushed.length := by
        rw [hp, List.length_cons]
      rw [Resolver.execLabels, he]
      exact h.concat h.chained rfl rfl rfl hlen

theorem Balanced.withText (h : Balanced settings before r) (node : ParseTree)
    {next : String → Step}
    (hn : ∀ text, Balanced settings (before ++ [(next text).reply]) (next text).resolver) :
    Balanced settings (before ++ [(r.withText node next).reply])
      (r.withText node next).resolver := by
  rw [Resolver.withText]
  split
  · exact hn _
  · exact h.concat h.chained rfl rfl rfl rfl

/-- **Each command and its reply keep the balance.** -/
theorem Balanced.exec (h : Balanced settings before r) (command : Command) :
    Balanced settings (before ++ [(r.exec command).reply]) (r.exec command).resolver := by
  cases command with
  | openScope => exact h.execScopes _
  | closeScope => exact h.execScopes _
  | declare spelling => exact h.execScopes _
  | declareNode node => exact h.withText node fun _ => h.execScopes _
  | pushLabel label => exact h.execLabels _
  | popLabel => exact h.execLabels _
  | pushNode node => exact h.withText node fun _ => h.execLabels _
  | start | offer | longestMatch | recognize | setSink =>
    exact h.concat h.chained rfl rfl rfl rfl

theorem Balanced.run (h : Balanced settings before r) (commands : List Command) :
    Balanced settings (before ++ r.replies commands) (r.run commands) := by
  induction commands generalizing r before with
  | nil => rwa [replies, List.append_nil]
  | cons command rest ih =>
    rw [replies, List.append_cons]
    exact ih (h.exec command)

/-! ## Faults -/

/-- A scope cannot be closed exactly if all that were opened have been closed. -/
theorem Balanced.fault_closeScope_iff (h : Balanced settings before r) :
    (r.exec .closeScope).reply.fault? = some fault ↔
      before.countP Reply.isClosed = before.countP Reply.isOpened + 1 ∧
        fault = .belowBottom .scope settings.rootLabel := by
  have hreply : (r.exec .closeScope).reply = .scopes (r.environment.exec .closeScope).reply := rfl
  have hs := h.scopes
  obtain ⟨hi, he⟩ | ⟨front, s, hi, he⟩ := h.chained.exec_closeScope
  · rw [hi, List.length_nil, Nat.zero_add] at hs
    rw [hreply, he, h.root, and_iff_right hs]
    exact Option.some_inj.trans eq_comm
  · rw [hi, List.length_append, List.length_singleton] at hs
    rw [hreply, he]
    refine iff_of_false (Option.some_ne_none _).symm ?_
    rintro ⟨hcount, -⟩
    omega

/-- A label cannot be popped exactly if all that were pushed have been popped. -/
theorem Balanced.fault_popLabel_iff (h : Balanced settings before r) :
    (r.exec .popLabel).reply.fault? = some fault ↔
      before.countP Reply.isPopped = before.countP Reply.isPushed ∧
        fault = .belowBottom .label settings.seedLabel := by
  have hreply : (r.exec .popLabel).reply = .labels (r.labels.exec .pop).reply := rfl
  have hl := h.labels
  obtain ⟨hp, he⟩ | ⟨label, rest, hp, he⟩ := r.labels.exec_pop
  · rw [hp, List.length_nil, Nat.zero_add] at hl
    rw [hreply, he, h.seed, and_iff_right hl]
    exact Option.some_inj.trans eq_comm
  · rw [hp, List.length_cons] at hl
    rw [hreply, he]
    refine iff_of_false (Option.some_ne_none _).symm ?_
    rintro ⟨hcount, -⟩
    omega

/-- What goes on with the text of a node, and does not fail then, fails exactly if there is none. -/
theorem fault_withText_iff {node : ParseTree} {next : String → Step}
    (hn : ∀ text, (next text).reply.fault? = none) :
    (r.withText node next).reply.fault? = some fault ↔
      ∃ cause, node.text = .error cause ∧ fault = .cut cause := by
  rw [Resolver.withText]
  split
  · rename_i text ht
    rw [hn, ht]
    simp
  · rename_i cause ht
    rw [ht]
    simp [Reply.fault?, eq_comm]

theorem Reply.fault?_scopes_iff {reply : Environment.Reply} :
    (Reply.scopes reply).fault? = some fault ↔ reply = .failed fault := by
  cases reply <;> simp [Reply.fault?]

theorem Reply.fault?_labels_iff {reply : LabelStack.Reply} :
    (Reply.labels reply).fault? = some fault ↔ reply = .failed fault := by
  cases reply <;> simp [Reply.fault?]

theorem execScopes_of_fault {command : Environment.Command}
    (h : (r.execScopes command).reply.fault? = some fault) :
    (r.execScopes command).resolver = r := by
  rw [execScopes, Environment.exec_of_failed (Reply.fault?_scopes_iff.mp h)]

theorem execLabels_of_fault {command : LabelStack.Command}
    (h : (r.execLabels command).reply.fault? = some fault) :
    (r.execLabels command).resolver = r := by
  rw [execLabels, LabelStack.exec_of_failed (Reply.fault?_labels_iff.mp h)]

theorem withText_of_fault {node : ParseTree} {next : String → Step}
    (hn : ∀ text, (next text).reply.fault? = none)
    (h : (r.withText node next).reply.fault? = some fault) :
    (r.withText node next).resolver = r := by
  obtain ⟨cause, ht, -⟩ := (fault_withText_iff hn).mp h
  rw [Resolver.withText, ht]

/-- **A command that fails changes nothing.** -/
theorem exec_of_fault {command : Command} (h : (r.exec command).reply.fault? = some fault) :
    (r.exec command).resolver = r := by
  cases command with
  | openScope => exact execScopes_of_fault h
  | closeScope => exact execScopes_of_fault h
  | declare spelling => exact execScopes_of_fault h
  | declareNode node => exact withText_of_fault (fun _ => rfl) h
  | pushLabel label => exact execLabels_of_fault h
  | popLabel => exact execLabels_of_fault h
  | pushNode node => exact withText_of_fault (fun _ => rfl) h
  | start | offer | longestMatch | recognize | setSink => cases h

/-- A pop fails, or a node has no text; nothing else does. -/
theorem Balanced.isMisuse_iff (h : Balanced settings before r) {command : Command}
    (hf : (r.exec command).reply.fault? = some fault) :
    fault.isMisuse = true ↔ command = .closeScope ∨ command = .popLabel := by
  cases command with
  | closeScope =>
    rw [(h.fault_closeScope_iff.mp hf).2]
    exact iff_of_true rfl (.inl rfl)
  | popLabel =>
    rw [(h.fault_popLabel_iff.mp hf).2]
    exact iff_of_true rfl (.inr rfl)
  | declareNode node | pushNode node =>
    obtain ⟨cause, -, rfl⟩ := (fault_withText_iff fun _ => rfl).mp hf
    refine iff_of_false Bool.false_ne_true ?_
    rintro (hc | hc) <;> cases hc
  | openScope | declare | pushLabel | start | offer | longestMatch | recognize | setSink => cases hf

/-! ## Every run -/

/-- When the next command fails, with which fault, and what it leaves behind; `before` are the replies
so far. -/
structure Failures (settings : Settings) (before : List Reply) (r : Resolver) : Prop where
  /-- All scopes that were opened have been closed, the global one too. -/
  closeScope : ∀ fault, (r.exec .closeScope).reply.fault? = some fault ↔
    before.countP Reply.isClosed = before.countP Reply.isOpened + 1 ∧
      fault = .belowBottom .scope settings.rootLabel
  /-- All labels that were pushed have been popped. -/
  popLabel : ∀ fault, (r.exec .popLabel).reply.fault? = some fault ↔
    before.countP Reply.isPopped = before.countP Reply.isPushed ∧
      fault = .belowBottom .label settings.seedLabel
  pushNode : ∀ node fault, (r.exec (.pushNode node)).reply.fault? = some fault ↔
    ∃ cause, node.text = .error cause ∧ fault = .cut cause
  declareNode : ∀ node fault, (r.exec (.declareNode node)).reply.fault? = some fault ↔
    ∃ cause, node.text = .error cause ∧ fault = .cut cause
  declare : ∀ spelling, (r.exec (.declare spelling)).reply.fault? = none
  pushLabel : ∀ label, (r.exec (.pushLabel label)).reply.fault? = none
  openScope : (r.exec .openScope).reply.fault? = none
  unchanged : ∀ command fault, (r.exec command).reply.fault? = some fault →
    (r.exec command).resolver = r
  isMisuse_iff : ∀ command fault, (r.exec command).reply.fault? = some fault →
    (fault.isMisuse = true ↔ command = .closeScope ∨ command = .popLabel)

theorem Balanced.failures (h : Balanced settings before r) : Failures settings before r where
  closeScope _ := h.fault_closeScope_iff
  popLabel _ := h.fault_popLabel_iff
  pushNode _ _ := fault_withText_iff fun _ => rfl
  declareNode _ _ := fault_withText_iff fun _ => rfl
  declare _ := rfl
  pushLabel _ := rfl
  openScope := rfl
  unchanged _ _ := exec_of_fault
  isMisuse_iff _ _ := h.isMisuse_iff

/-- **Commands fail exactly when they should, and then change nothing**, after every run of a
resolver. -/
theorem run_failures (settings : Settings) (commands : List Command) :
    Failures settings ((ofSettings settings).replies commands)
      ((ofSettings settings).run commands) :=
  ((balanced_ofSettings settings).run commands).failures

/-- The global scope can be closed, and then there is none left. -/
example : (((ofSettings {}).run [.openScope, .closeScope, .closeScope]).exec
    .closeScope).reply.fault? = some (.belowBottom .scope "<builtin>") := by decide +kernel

end Resolver

end SpacedNames
