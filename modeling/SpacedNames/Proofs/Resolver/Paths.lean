import SpacedNames.Proofs.Resolver.Failures

/-!
# The paths of definitions

A definition keeps the labels of the scopes around it. Each of these took its label when it was
opened, from a stack that is pushed and popped out of step with the scopes. Here the path is told by
the commands before the declaration, without the state that they have led to.

* `Move`: one push on a stack, or one pop. A pop that finds nothing changes nothing.
* `Lasts moves`: the moves leave alone what was on the stack when they began. This is told by
  counting.
* `remaining moves`: what the moves push and do not pop again, in order. `foldl_act_eq`: a stack on
  which the moves are carried out holds just this, above what they left alone.
* `Resolver.Command.labelMove?`, `scopeMove?`, `declared?`: what a command does to the two stacks,
  and the name that it declares. `scopes_exec`, `pushed_exec`, `registry_exec`: it does this to the
  state.
* `Resolver.labelAfter`, `pathAfter`: the current label after some commands, and the labels of the
  scopes that they leave open. `declarations`: the names that are declared, each with its path.
* `Resolver.Told`: the state holds on its two stacks what the commands tell. Each command keeps this
  (`Told.exec`), though it pushes the label that the state has on top.
* `Resolver.run_paths`: the registry of every run is what the commands tell.
-/

namespace SpacedNames

/-! ## What remains on a stack -/

/-- A change of a stack, whose last element is on top. -/
inductive Move (α : Type) where
  | push (a : α)
  /-- Takes the top away, if there is one. -/
  | pop
  deriving DecidableEq

namespace Move

variable {α : Type} {moves : List (Move α)}

/-- Carries out a move. -/
def act (stack : List α) : Move α → List α
  | push a => stack ++ [a]
  | pop => stack.dropLast

/-! ### Counting -/

/-- Does the move put something on the stack? -/
def pushes : Move α → Bool
  | push _ => true
  | pop => false

/-- Does the move take something away? -/
def pops : Move α → Bool
  | push _ => false
  | pop => true

/-- No part of the moves pops more than it pushes: what was on the stack before them stays there. -/
def Lasts (moves : List (Move α)) : Prop :=
  ∀ part, part <+: moves → part.countP pops ≤ part.countP pushes

instance : DecidablePred (Lasts (α := α)) := fun moves =>
  decidable_of_iff (∀ part ∈ moves.inits, part.countP pops ≤ part.countP pushes) <| by
    simp only [Lasts, List.mem_inits]

/-- What the moves push and do not pop again, in order. -/
def remaining : List (Move α) → List α
  | [] => []
  | push a :: rest => if Lasts rest then a :: remaining rest else remaining rest
  | pop :: rest => remaining rest

/-- How many elements of the stack the moves pop that were there before them. -/
def deficit : List (Move α) → Nat
  | [] => 0
  | push _ :: rest => deficit rest - 1
  | pop :: rest => deficit rest + 1

/-- The deficit is the most that any part of the moves pops beyond what it pushes. -/
theorem deficit_le_iff {k : Nat} :
    deficit moves ≤ k ↔ ∀ part, part <+: moves → part.countP pops ≤ part.countP pushes + k := by
  induction moves generalizing k with
  | nil => simp [deficit]
  | cons move rest ih =>
    have hcons : (∀ part, part <+: move :: rest → part.countP pops ≤ part.countP pushes + k) ↔
        ∀ part, part <+: rest →
          (move :: part).countP pops ≤ (move :: part).countP pushes + k := by
      constructor
      · intro h part hp
        exact h _ (List.cons_prefix_cons.mpr ⟨rfl, hp⟩)
      · intro h part hp
        rcases List.prefix_cons_iff.mp hp with rfl | ⟨inner, rfl, hinner⟩
        · exact Nat.zero_le _
        · exact h inner hinner
    rw [hcons]
    cases move with
    | push a =>
      have hcount : ∀ part : List (Move α),
          ((push a :: part).countP pops ≤ (push a :: part).countP pushes + k ↔
            part.countP pops ≤ part.countP pushes + (k + 1)) := fun part => by
        simp only [List.countP_cons, pops, pushes, if_true, Bool.false_eq_true, if_false]
        omega
      simp only [hcount]
      rw [← ih, deficit]
      omega
    | pop =>
      have hcount : ∀ part : List (Move α),
          ((pop :: part).countP pops ≤ (pop :: part).countP pushes + k ↔
            part.countP pops + 1 ≤ part.countP pushes + k) := fun part => by
        simp only [List.countP_cons, pops, pushes, if_true, Bool.false_eq_true, if_false,
          Nat.add_zero]
      simp only [hcount]
      rw [deficit]
      cases k with
      | zero =>
        refine iff_of_false (Nat.not_succ_le_zero _) fun h => ?_
        exact Nat.not_succ_le_zero 0 (h [] List.nil_prefix)
      | succ k =>
        rw [Nat.succ_le_succ_iff, ih]
        exact forall₂_congr fun part _ => by omega

theorem lasts_iff_deficit : Lasts moves ↔ deficit moves = 0 := by
  rw [← Nat.le_zero, deficit_le_iff]
  rfl

/-! ### Stack and history -/

/-- **A stack holds what its history tells**: what was there before and is left alone, and above it
what was pushed since and remains. -/
theorem foldl_act_eq (stack : List α) (moves : List (Move α)) :
    moves.foldl act stack = stack.take (stack.length - deficit moves) ++ remaining moves := by
  induction moves generalizing stack with
  | nil => simp [deficit, remaining]
  | cons move rest ih =>
    rw [List.foldl_cons, ih]
    cases move with
    | push a =>
      rw [act, remaining, deficit, List.length_append, List.length_singleton]
      by_cases hl : Lasts rest
      · rw [if_pos hl, lasts_iff_deficit.mp hl, Nat.zero_sub, Nat.sub_zero, Nat.sub_zero,
          List.take_of_length_le (by simp), List.take_length, List.append_assoc]
        rfl
      · have hd : deficit rest ≠ 0 := mt lasts_iff_deficit.mpr hl
        rw [if_neg hl, List.take_append_of_le_length (by omega)]
        congr 2
        omega
    | pop =>
      rw [act, remaining, deficit, List.dropLast_eq_take, List.take_take, List.length_take]
      congr 2
      omega

/-- A stack that was empty holds what remains. -/
theorem foldl_act_nil (moves : List (Move α)) : moves.foldl act [] = remaining moves := by
  rw [foldl_act_eq, List.take_nil, List.nil_append]

/-- One more move is carried out on what remains so far. -/
theorem remaining_append (moves more : List (Move α)) :
    remaining (moves ++ more) = more.foldl act (remaining moves) := by
  rw [← foldl_act_nil, List.foldl_append, foldl_act_nil]

end Move

/-! ## The labels of the open scopes -/

namespace Environment

variable {e : Environment}

/-- What a command does to the stack of open scopes, which are told by their labels. The root is not
on this stack, as it is never closed. -/
def Command.move? : Command → Option (Move String)
  | .openScope label => some (.push label)
  | .closeScope => some .pop
  | .declare _ => none

theorem Chained.labels_declare (h : e.Chained) (name : Name) :
    (e.declare name).2.scopes.inner.map Scope.label = e.scopes.inner.map Scope.label := by
  have hl := congrArg (List.map Scope.label) (h.toList_declare name)
  rw [List.map_map, show Scope.label ∘ e.bindHere name = Scope.label from
    funext (e.bindHere_label name)] at hl
  exact (List.cons.inj hl).2

/-- The labels of the open scopes are a stack. Closing takes the last one, and leaves the root
alone. -/
theorem Chained.labels_exec (h : e.Chained) (command : Command) :
    (e.exec command).environment.scopes.inner.map Scope.label =
      command.move?.toList.foldl Move.act (e.scopes.inner.map Scope.label) := by
  cases command with
  | openScope label => exact List.map_append
  | closeScope =>
    obtain ⟨hi, he⟩ | ⟨front, s, hi, he⟩ := h.exec_closeScope
    · rw [he, hi]
      rfl
    · rw [he, hi, List.map_append]
      exact List.dropLast_concat.symm
  | declare name => exact h.labels_declare name

end Environment

namespace LabelStack

/-- What a command does to the labels above the seed. -/
def Command.move : Command → Move String
  | .push label => .push label
  | .pop => .pop

theorem seed_exec (s : LabelStack) (command : Command) :
    (s.exec command).labels.seed = s.seed := by
  cases command with
  | push label => rfl
  | pop => obtain ⟨-, he⟩ | ⟨label, rest, -, he⟩ := s.exec_pop <;> rw [he]

/-- The labels above the seed are a stack. Popping leaves the seed alone. -/
theorem pushed_exec (s : LabelStack) (command : Command) :
    (s.exec command).labels.pushed.reverse = command.move.act s.pushed.reverse := by
  cases command with
  | push label => exact List.reverse_cons
  | pop =>
    obtain ⟨hp, he⟩ | ⟨label, rest, hp, he⟩ := s.exec_pop
    · rw [he, hp]
      rfl
    · rw [he, hp, List.reverse_cons]
      exact List.dropLast_concat.symm

end LabelStack

namespace Resolver

variable {r : Resolver} {settings : Settings} {commands : List Command}

/-! ## What the commands tell -/

/-- The operation on the labels that a command comes to. A node without a text pushes none. -/
def Command.labelCommand? : Command → Option LabelStack.Command
  | .pushLabel label => some (.push label)
  | .pushNode node => node.text.toOption.map .push
  | .popLabel => some .pop
  | _ => none

/-- What a command does to the stack of labels above the seed. -/
def Command.labelMove? (command : Command) : Option (Move String) :=
  command.labelCommand?.map LabelStack.Command.move

/-- What a command does to the stack of open scopes above the root, if a scope that is opened takes
this label. -/
def Command.scopeMove? (label : String) : Command → Option (Move String)
  | .openScope => some (.push label)
  | .closeScope => some .pop
  | _ => none

/-- The name that a command declares. A node without a text declares none. -/
def Command.declared? : Command → Option Name
  | .declare spelling => some (.declared spelling)
  | .declareNode node => node.text.toOption.map .declared
  | _ => none

/-- Each command with those before it. -/
def withPast : List Command → List (List Command × Command)
  | [] => []
  | command :: rest =>
    ([], command) :: (withPast rest).map fun (past, later) => (command :: past, later)

theorem withPast_concat (commands : List Command) (command : Command) :
    withPast (commands ++ [command]) = withPast commands ++ [(commands, command)] := by
  induction commands with
  | nil => rfl
  | cons first rest ih =>
    rw [List.cons_append, withPast, withPast, ih, List.map_append]
    rfl

/-- The label that is current after the commands: the one pushed last and not popped since, or the
seed. -/
def labelAfter (settings : Settings) (commands : List Command) : String :=
  (Move.remaining (commands.filterMap Command.labelMove?)).getLast?.getD settings.seedLabel

/-- The scopes that are opened and closed, the global one first. A scope takes the label that is
current when it is opened. -/
def scopeMoves (settings : Settings) (commands : List Command) : List (Move String) :=
  .push settings.globalLabel ::
    (withPast commands).filterMap fun (past, command) =>
      command.scopeMove? (labelAfter settings past)

/-- The labels of the scopes that are open after the commands, from the root inwards. -/
def pathAfter (settings : Settings) (commands : List Command) : List String :=
  settings.rootLabel :: Move.remaining (scopeMoves settings commands)

/-- The names that the commands declare, each with the labels of the scopes that are open then. -/
def declarations (settings : Settings) (commands : List Command) : List (Name × List String) :=
  (withPast commands).filterMap fun (past, command) =>
    command.declared?.map (·, pathAfter settings past)

theorem scopeMoves_concat (settings : Settings) (commands : List Command) (command : Command) :
    scopeMoves settings (commands ++ [command]) =
      scopeMoves settings commands ++
        (command.scopeMove? (labelAfter settings commands)).toList := by
  rw [scopeMoves, withPast_concat, List.filterMap_append, scopeMoves, List.cons_append]
  rfl

theorem declarations_concat (settings : Settings) (commands : List Command) (command : Command) :
    declarations settings (commands ++ [command]) =
      declarations settings commands ++
        (command.declared?.map (·, pathAfter settings commands)).toList := by
  rw [declarations, withPast_concat, List.filterMap_append]
  rfl

/-! ## One command -/

theorem run_concat (r : Resolver) (commands : List Command) (command : Command) :
    r.run (commands ++ [command]) = ((r.run commands).exec command).resolver :=
  List.foldl_append

theorem bind_move_scopeCommand? (r : Resolver) (command : Command) :
    (r.scopeCommand? command).bind Environment.Command.move? =
      command.scopeMove? r.labels.top := by
  cases command with
  | declareNode node =>
    rw [scopeCommand?]
    cases node.text <;> rfl
  | openScope | closeScope | pushLabel | pushNode | popLabel | declare | start | offer
  | longestMatch | recognize | setSink => rfl

theorem bind_declared_scopeCommand? (r : Resolver) (command : Command) :
    (r.scopeCommand? command).bind Environment.Command.declared? = command.declared? := by
  cases command with
  | declareNode node =>
    rw [scopeCommand?, Command.declared?]
    cases node.text <;> rfl
  | openScope | closeScope | pushLabel | pushNode | popLabel | declare | start | offer
  | longestMatch | recognize | setSink => rfl

/-- An opened scope takes the label that the state has on top. -/
theorem scopes_exec (h : r.environment.Chained) (command : Command) :
    (r.exec command).resolver.environment.scopes.inner.map Scope.label =
      (command.scopeMove? r.labels.top).toList.foldl Move.act
        (r.environment.scopes.inner.map Scope.label) := by
  rw [exec_environment, ← bind_move_scopeCommand?]
  cases r.scopeCommand? command with
  | none => rfl
  | some command => exact h.labels_exec command

theorem root_label_exec (h : r.environment.Chained) (command : Command) :
    (r.exec command).resolver.environment.scopes.root.label =
      r.environment.scopes.root.label := by
  rw [exec_environment]
  cases r.scopeCommand? command with
  | none => rfl
  | some command => exact h.root_label_exec command

/-- **A declaration puts one entry at the end of the registry**, and the other commands put none. -/
theorem registry_exec (r : Resolver) (command : Command) :
    (r.exec command).resolver.environment.registry =
      r.environment.registry ++ (command.declared?.map r.environment.entry).toList := by
  rw [exec_environment, ← bind_declared_scopeCommand? r]
  cases r.scopeCommand? command with
  | none => exact (List.append_nil _).symm
  | some command => exact r.environment.registry_exec command

/-- **A command changes the labels by its own operation only.** -/
theorem exec_labels (r : Resolver) (command : Command) :
    (r.exec command).resolver.labels =
      command.labelCommand?.elim r.labels fun command => (r.labels.exec command).labels := by
  cases command with
  | pushNode node =>
    rw [exec, withText, Command.labelCommand?]
    cases node.text <;> rfl
  | declareNode node =>
    rw [exec, withText]
    cases node.text <;> rfl
  | openScope | closeScope | pushLabel | popLabel | declare | start | offer | longestMatch
  | recognize | setSink => rfl

theorem seed_exec (r : Resolver) (command : Command) :
    (r.exec command).resolver.labels.seed = r.labels.seed := by
  rw [exec_labels]
  cases command.labelCommand? with
  | none => rfl
  | some command => exact r.labels.seed_exec command

theorem pushed_exec (r : Resolver) (command : Command) :
    (r.exec command).resolver.labels.pushed.reverse =
      command.labelMove?.toList.foldl Move.act r.labels.pushed.reverse := by
  rw [exec_labels, Command.labelMove?]
  cases command.labelCommand? with
  | none => rfl
  | some command => exact r.labels.pushed_exec command

/-! ## State and history -/

/-- The two stacks hold what the commands tell. -/
structure Told (settings : Settings) (commands : List Command) (r : Resolver) : Prop where
  chained : r.environment.Chained
  seed : r.labels.seed = settings.seedLabel
  labels : r.labels.pushed.reverse = Move.remaining (commands.filterMap Command.labelMove?)
  root : r.environment.scopes.root.label = settings.rootLabel
  scopes : r.environment.scopes.inner.map Scope.label =
    Move.remaining (scopeMoves settings commands)

theorem Told.top_eq (h : Told settings commands r) :
    r.labels.top = labelAfter settings commands := by
  rw [labelAfter, ← h.labels, List.getLast?_reverse, ← h.seed, LabelStack.top]

theorem Told.path_eq (h : Told settings commands r) :
    r.environment.scopes.toList.map Scope.label = pathAfter settings commands := by
  rw [pathAfter, ← h.root, ← h.scopes]
  rfl

theorem told_ofSettings (settings : Settings) : Told settings [] (ofSettings settings) where
  chained := (balanced_ofSettings settings).chained
  seed := rfl
  labels := rfl
  root := (balanced_ofSettings settings).root
  scopes := rfl

/-- **Each command does to the stacks what it tells.** -/
theorem Told.exec (h : Told settings commands r) (command : Command) :
    Told settings (commands ++ [command]) (r.exec command).resolver where
  chained := by
    rw [exec_environment]
    exact h.chained.run _
  seed := (r.seed_exec command).trans h.seed
  labels := by
    have hmoves : (commands ++ [command]).filterMap Command.labelMove? =
        commands.filterMap Command.labelMove? ++ command.labelMove?.toList := by
      rw [List.filterMap_append]
      rfl
    rw [pushed_exec, h.labels, hmoves, Move.remaining_append]
  root := (root_label_exec h.chained command).trans h.root
  scopes := by
    rw [scopes_exec h.chained, h.top_eq, h.scopes, scopeMoves_concat, Move.remaining_append]

theorem run_told (settings : Settings) (commands : List Command) :
    Told settings commands ((ofSettings settings).run commands) := by
  induction commands using List.reverseRecOn with
  | nil => exact told_ofSettings settings
  | append_singleton commands command ih =>
    rw [run_concat]
    exact ih.exec command

/-! ## Every run -/

/-- Is it a command on scopes? Declarations are. -/
def Command.onScopes : Command → Bool
  | .openScope | .closeScope | .declare _ | .declareNode _ => true
  | _ => false

/-- Is it a command on labels? -/
def Command.onLabels : Command → Bool
  | .pushLabel _ | .pushNode _ | .popLabel => true
  | _ => false

/-- Only the commands on scopes change the scopes and the registry, and only those on labels the
labels. -/
structure StacksApart (r : Resolver) : Prop where
  scopes : ∀ command, command.onScopes = false →
    (r.exec command).resolver.environment = r.environment
  labels : ∀ command, command.onLabels = false → (r.exec command).resolver.labels = r.labels

theorem stacksApart (r : Resolver) : StacksApart r where
  scopes command h := by
    rw [exec_environment]
    cases command with
    | openScope | closeScope | declare | declareNode => cases h
    | pushLabel | pushNode | popLabel | start | offer | longestMatch | recognize | setSink => rfl
  labels command h := by
    rw [exec_labels]
    cases command with
    | pushLabel | pushNode | popLabel => cases h
    | openScope | closeScope | declare | declareNode | start | offer | longestMatch | recognize
    | setSink => rfl

/-- The registry has the declarations of the commands, in order. -/
theorem registry_run_eq (settings : Settings) (commands : List Command) :
    ((ofSettings settings).run commands).environment.registry.map (fun d => (d.name, d.path)) =
      declarations settings commands := by
  induction commands using List.reverseRecOn with
  | nil => rfl
  | append_singleton commands command ih =>
    have htold := run_told settings commands
    rw [run_concat, registry_exec, List.map_append, ih, declarations_concat,
      List.append_cancel_left_eq]
    cases command.declared? with
    | none => rfl
    | some name =>
      have hpath := (htold.chained.path_entry name).trans htold.path_eq
      exact congrArg (fun path => [(name, path)]) hpath

/-- **A definition is recorded under the labels that were current when the scopes around it were
opened**, whatever was pushed and popped since. The registry of every run has the declarations of its
commands, in order, and the two stacks do not disturb each other. -/
theorem run_paths (settings : Settings) (commands : List Command) :
    ((ofSettings settings).run commands).environment.registry.map (fun d => (d.name, d.path)) =
        declarations settings commands ∧
      StacksApart ((ofSettings settings).run commands) :=
  ⟨registry_run_eq settings commands, stacksApart _⟩

/-- The label of an open scope is popped, and another one is pushed, before names are declared. -/
example : declarations {} [.pushLabel "order", .openScope, .popLabel, .pushLabel "line",
    .declare "total", .closeScope, .declare "tax", .openScope, .declare "tax"] =
      [(.declared "total", ["<builtin>", "<global>", "order"]),
        (.declared "tax", ["<builtin>", "<global>"]),
        (.declared "tax", ["<builtin>", "<global>", "line"])] := by decide +kernel

end Resolver

end SpacedNames
