import SpacedNames.Proofs.Scoping.Handles

/-!
# Handles and backtracking

A parser that backtracks goes back to a copy of its environment. The counter of the serials is a part
of the copy, so the serials of the branch that is given up are handed out again.

* `Trail.lineage`: the commands that led to the present environment and to each saved copy, with the
  times at which they were carried out. `Trail.run_eq`: each of these environments is the one to which
  a run without backtracking leads.
* `Trail.OpenedAt`: the scope is live, and was opened at that time. This is told by its place and by
  counting, without handles. Each live scope but the root was opened at one time
  (`existsUnique_openedAt`).
* `Trail.Faithful`: if the handle stands for a scope, it is the one that was opened when the handle
  was given out.
* `Trail.Reissued`: a scope is live that was opened at another time, at the same depth and after as
  many openings.
* `Trail.run_faithful_iff`: a handle is faithful unless it is reissued, and on the branch on which it
  was given out it always is.
-/

namespace SpacedNames

namespace Environment

variable {e fresh : Environment} {builtins : List String} {commands : List Command}

/-! ## Depths -/

/-- Only opening a scope leads deeper. -/
theorem Chained.depth_exec (h : e.Chained) (command : Command) :
    (e.exec command).environment.depth ≤ e.depth ∨
      ∃ label, command = .openScope label ∧
        (e.exec command).environment.depth = e.depth + 1 := by
  cases command with
  | openScope label => exact .inr ⟨label, rfl, (h.inside_openScope label).depth_eq h⟩
  | closeScope =>
    left
    obtain ⟨-, he⟩ | ⟨front, s, hi, he⟩ := h.exec_closeScope
    · rw [he]
    · have hd := h.depth_add_one
      have hd' := (h.withInner hi).depth_add_one
      have hsize : e.scopes.size = (e.withInner front).scopes.size + 1 := by
        rw [ScopeStack.size, ScopeStack.toList_of_inner_append hi, List.length_append]
        rfl
      have hle : (e.withInner front).depth ≤ e.depth := by omega
      rwa [he]
  | declare name => exact .inl (Nat.le_refl _)

/-- **A scope that is live was opened by some command**, and stays open since. -/
theorem Fresh.exists_opening (hf : Fresh builtins fresh) {n : Nat}
    (hn : n < (fresh.run commands).depth) :
    ∃ front label rest, commands = front ++ .openScope label :: rest ∧ KeepsOpen rest ∧
      (fresh.run front).depth = n := by
  induction commands using List.reverseRecOn with
  | nil =>
    obtain ⟨label, rfl⟩ := hf.exists_eq_withBuiltins
    have hzero := hf.chained.depth_add_one
    have hone : (Environment.withBuiltins label builtins).scopes.size = 1 := rfl
    rw [run, List.foldl_nil] at hn
    omega
  | append_singleton commands command ih =>
    have hconcat : fresh.run (commands ++ [command]) =
        ((fresh.run commands).exec command).environment := run_append fresh commands [command]
    -- The last command leaves the depth above `n`, or it is the one that gets there.
    rcases Nat.lt_or_ge n (fresh.run commands).depth with hlt | hge
    · obtain ⟨front, label, rest, rfl, hk, hd⟩ := ih hlt
      have hc := hf.chained.run front
      refine ⟨front, label, rest ++ [command], by simp, ?_, hd⟩
      refine (keepsOpen_iff_depth hc label).mpr fun part hp => ?_
      rcases List.prefix_concat_iff.mp hp with rfl | hp
      · rwa [hd, ← run_append, ← List.cons_append, ← List.append_assoc]
      · exact (keepsOpen_iff_depth hc label).mp hk part hp
    · rw [hconcat] at hn
      rcases (hf.chained.run commands).depth_exec command with hle | ⟨label, rfl, hd⟩
      · omega
      · exact ⟨commands, label, [], rfl, keepsOpen_nil, by omega⟩

/-- The handle that is given out tells how deep it is, and how many scopes were opened before. -/
theorem Fresh.opened_eq (hf : Fresh builtins fresh) (commands : List Command) (label : String) :
    ((fresh.run commands).openScope label).1 =
      ⟨(fresh.run commands).depth + 1, fresh.scopes.nextSerial + openings commands⟩ := by
  rw [← nextSerial_run, (hf.chained.run commands).depth_add_one]
  rfl

end Environment

namespace Trail

open Environment

variable {fresh : Environment} {builtins : List String} {commands : List Command}

/-! ## The lineage of a run -/

/-- The commands that led to an environment. Each has its time, which is the number of commands of the
whole run before it. -/
abbrev Branch : Type :=
  List (Nat × Environment.Command)

variable {branch front : Branch} {time : Nat}

/-- The branch of the present environment, and the one of each saved copy. -/
structure Lineage where
  branch : Branch := []
  saved : List Branch := []
  deriving DecidableEq

/-- What a command at that time makes of the branches. -/
def Lineage.exec (l : Lineage) (time : Nat) : Command → Lineage
  | .scopes command => { l with branch := l.branch ++ [(time, command)] }
  | .save => { l with saved := l.branch :: l.saved }
  | .restore =>
    match l.saved with
    | [] => l
    | branch :: rest => ⟨branch, rest⟩
  | .revisit place => { l with branch := l.saved[place]?.getD l.branch }

/-- The lineage of a run. -/
def lineage (commands : List Command) : Lineage :=
  commands.zipIdx.foldl (fun l (command, time) => l.exec time command) {}

theorem lineage_concat (commands : List Command) (command : Command) :
    lineage (commands ++ [command]) = (lineage commands).exec commands.length command := by
  rw [lineage, List.zipIdx_append, List.foldl_append, Nat.zero_add]
  rfl

/-- The environment to which a branch leads. -/
def along (fresh : Environment) (branch : Branch) : Environment :=
  fresh.run (branch.map Prod.snd)

/-- The environments to which the branches lead. -/
def Lineage.trail (fresh : Environment) (l : Lineage) : Trail :=
  ⟨along fresh l.branch, l.saved.map (along fresh)⟩

theorem along_append (fresh : Environment) (xs ys : Branch) :
    along fresh (xs ++ ys) = (along fresh xs).run (ys.map Prod.snd) := by
  rw [along, List.map_append, run_append]
  rfl

theorem Lineage.trail_exec (fresh : Environment) (l : Lineage) (time : Nat) (command : Command) :
    (l.trail fresh).exec command = (l.exec time command).trail fresh := by
  cases command with
  | scopes command =>
    rw [Lineage.exec, trail, trail, along_append]
    rfl
  | save => rfl
  | restore =>
    obtain ⟨branch, saved⟩ := l
    cases saved <;> rfl
  | revisit place =>
    rw [Lineage.exec, Trail.exec, trail, trail, List.getElem?_map]
    cases l.saved[place]? <;> rfl

/-- **A run with backtracking leads where its branch leads**, and so does each saved copy. -/
theorem run_eq (fresh : Environment) (commands : List Command) :
    (ofEnvironment fresh).run commands = (lineage commands).trail fresh := by
  induction commands using List.reverseRecOn with
  | nil => rfl
  | append_singleton commands command ih =>
    rw [lineage_concat, ← Lineage.trail_exec, ← ih]
    exact List.foldl_append

theorem environment_run (fresh : Environment) (commands : List Command) :
    ((ofEnvironment fresh).run commands).environment = along fresh (lineage commands).branch :=
  congrArg environment (run_eq fresh commands)

/-! ## Times -/

/-- Each command of the branch was carried out at its time, where those before it had led. -/
def Dated (commands : List Command) (branch : Branch) : Prop :=
  ∀ front time command rest, branch = front ++ (time, command) :: rest →
    commands[time]? = some (.scopes command) ∧ front = (lineage (commands.take time)).branch

/-- What comes later in the run does not change what was. -/
theorem Dated.concat (h : Dated commands branch) (command : Command) :
    Dated (commands ++ [command]) branch := by
  intro front time earlier rest hb
  obtain ⟨hat, hfront⟩ := h front time earlier rest hb
  have hlt : time < commands.length := (List.getElem?_eq_some_iff.mp hat).1
  rw [List.getElem?_append_left hlt, List.take_append_of_le_length (Nat.le_of_lt hlt)]
  exact ⟨hat, hfront⟩

theorem Dated.extend (h : Dated commands (lineage commands).branch)
    (command : Environment.Command) : Dated (commands ++ [.scopes command])
      ((lineage commands).branch ++ [(commands.length, command)]) := by
  intro front time earlier rest hb
  rcases List.eq_nil_or_concat rest with rfl | ⟨rest, last, rfl⟩
  · obtain ⟨rfl, hlast⟩ := List.append_inj' hb rfl
    cases hlast
    rw [List.take_left]
    exact ⟨List.getElem?_concat_length, rfl⟩
  · rw [List.concat_eq_append, ← List.cons_append, ← List.append_assoc] at hb
    obtain ⟨hb, -⟩ := List.append_inj' hb rfl
    exact h.concat _ front time earlier rest hb

/-- A command adds no branch but the present one with itself. -/
theorem Lineage.mem_exec {l : Lineage} {time : Nat} {command : Command}
    (hb : branch ∈ (l.exec time command).branch :: (l.exec time command).saved) :
    branch ∈ l.branch :: l.saved ∨
      ∃ c, command = .scopes c ∧ branch = l.branch ++ [(time, c)] := by
  cases command with
  | scopes c =>
    rcases List.mem_cons.mp hb with rfl | hb
    · exact .inr ⟨c, rfl, rfl⟩
    · exact .inl (List.mem_cons_of_mem _ hb)
  | save =>
    rcases List.mem_cons.mp hb with rfl | hb
    · exact .inl List.mem_cons_self
    · exact .inl hb
  | restore =>
    obtain ⟨present, saved⟩ := l
    cases saved with
    | nil => exact .inl hb
    | cons first rest => exact .inl (List.mem_cons_of_mem _ hb)
  | revisit place =>
    left
    rcases List.mem_cons.mp hb with rfl | hb
    · rw [Lineage.exec]
      cases hp : l.saved[place]? with
      | none => exact List.mem_cons_self
      | some found => exact List.mem_cons_of_mem _ (List.mem_of_getElem? hp)
    · exact List.mem_cons_of_mem _ hb

theorem dated_of_mem_lineage (commands : List Command) :
    ∀ branch ∈ (lineage commands).branch :: (lineage commands).saved, Dated commands branch := by
  induction commands using List.reverseRecOn with
  | nil =>
    rintro branch hb front time command rest rfl
    simp [lineage] at hb
  | append_singleton commands command ih =>
    intro branch hb
    rw [lineage_concat] at hb
    rcases Lineage.mem_exec hb with hb | ⟨c, rfl, rfl⟩
    · exact (ih branch hb).concat command
    · exact (ih _ List.mem_cons_self).extend c

theorem dated_lineage (commands : List Command) : Dated commands (lineage commands).branch :=
  dated_of_mem_lineage commands _ List.mem_cons_self

/-! ## Which command opened a scope -/

/-- The command of the branch behind `front` opens a scope, and none of the later ones closes it. -/
def Opening (branch front : Branch) (time : Nat) : Prop :=
  ∃ label rest, branch = front ++ (time, .openScope label) :: rest ∧
    KeepsOpen (rest.map Prod.snd)

/-- The scope is live at the end of the branch, and was opened at that time. -/
def OpenedAt (fresh : Environment) (branch : Branch) (time : Nat) (s : Scope) : Prop :=
  ∃ front, Opening branch front time ∧
    (along fresh branch).scopes.toList[(along fresh front).depth + 1]? = some s

/-- **What is opened stays in its place**, with the handle that was given out for it. -/
theorem Opening.getElem? (hf : Fresh builtins fresh) (ho : Opening branch front time) :
    ∃ s, (along fresh branch).scopes.toList[(along fresh front).depth + 1]? = some s ∧
      s.handle = ⟨(along fresh front).depth + 1,
        fresh.scopes.nextSerial + openings (front.map Prod.snd)⟩ := by
  obtain ⟨label, rest, rfl, hk⟩ := ho
  obtain ⟨s, hs, -⟩ := hk.scope?_opened (hf.chained.run (front.map Prod.snd)) label
  rw [hf.opened_eq] at hs
  obtain ⟨hat, hhandle⟩ := ScopeStack.scope?_eq_some_iff.mp hs
  refine ⟨s, ?_, hhandle⟩
  rw [along_append]
  exact hat

/-- The scope in a place above the root was opened by some command of the branch. -/
theorem exists_opening (hf : Fresh builtins fresh) {n : Nat} {s : Scope}
    (hs : (along fresh branch).scopes.toList[n + 1]? = some s) :
    ∃ front time, Opening branch front time ∧ (along fresh front).depth = n := by
  have hn : n < (along fresh branch).depth := by
    have hsize := (hf.chained.run (branch.map Prod.snd)).depth_add_one
    have hlt := (List.getElem?_eq_some_iff.mp hs).1
    exact Nat.succ_lt_succ_iff.mp (hlt.trans_eq hsize.symm)
  obtain ⟨before, label, after, hb, hk, hd⟩ := hf.exists_opening hn
  obtain ⟨front, later, rfl, rfl, hlater⟩ := List.map_eq_append_iff.mp hb
  obtain ⟨⟨time, command⟩, rest, rfl, hcommand, rfl⟩ := List.map_eq_cons_iff.mp hlater
  obtain rfl : command = .openScope label := hcommand
  exact ⟨front, time, ⟨label, rest, rfl, hk⟩, hd⟩

/-- What is opened while a scope is open is deeper, so at the same depth it is that scope. -/
theorem eq_of_depth_eq (hf : Fresh builtins fresh) {label : String} {later rest rest' : Branch}
    {step : Nat × Environment.Command} (hk : KeepsOpen (rest.map Prod.snd))
    (hb : (time, .openScope label) :: rest = later ++ step :: rest')
    (hd : (along fresh front).depth = (along fresh (front ++ later)).depth) :
    (time, .openScope label) = step := by
  cases later with
  | nil => exact (List.cons.inj hb).1
  | cons first later =>
    obtain ⟨rfl, hrest⟩ := List.cons.inj hb
    rw [show rest = later ++ step :: rest' from hrest, List.map_append] at hk
    have hlt := (keepsOpen_iff_depth (hf.chained.run (front.map Prod.snd)) label).mp hk
      (later.map Prod.snd) (List.prefix_append _ _)
    rw [along_append] at hd
    exact absurd hd (Nat.ne_of_lt hlt)

theorem Opening.time_eq (hf : Fresh builtins fresh) {front' : Branch} {time' : Nat}
    (ho : Opening branch front time) (ho' : Opening branch front' time')
    (hd : (along fresh front).depth = (along fresh front').depth) : time = time' := by
  obtain ⟨label, rest, rfl, hk⟩ := ho
  obtain ⟨label', rest', hb, hk'⟩ := ho'
  -- One of the two commands comes first, and its scope is open when the other is carried out.
  rcases List.append_eq_append_iff.mp hb with ⟨later, rfl, hlater⟩ | ⟨later, rfl, hlater⟩
  · exact congrArg Prod.fst (eq_of_depth_eq hf hk hlater hd)
  · exact (congrArg Prod.fst (eq_of_depth_eq hf hk' hlater hd.symm)).symm

/-- The place of a live scope tells when it was opened. -/
theorem OpenedAt.time_eq (hf : Fresh builtins fresh) {time' : Nat} {s : Scope}
    (h : OpenedAt fresh branch time s) (ho : Opening branch front time')
    (hs : (along fresh branch).scopes.toList[(along fresh front).depth + 1]? = some s) :
    time = time' := by
  obtain ⟨front', ho', hs'⟩ := h
  have hslotted := (hf.chained.run (branch.map Prod.snd)).linked.slotted
  have hplace := (hslotted _ _ hs').symm.trans (hslotted _ _ hs)
  exact ho'.time_eq hf ho (Nat.succ_inj.mp hplace)

/-- **Each live scope but the root was opened at one time.** -/
theorem existsUnique_openedAt (hf : Fresh builtins fresh) {s : Scope}
    (hs : s ∈ (along fresh branch).scopes.inner) : ∃! time, OpenedAt fresh branch time s := by
  obtain ⟨n, hn⟩ := List.mem_iff_getElem?.mp hs
  have hat : (along fresh branch).scopes.toList[n + 1]? = some s := hn
  obtain ⟨front, time, ho, rfl⟩ := exists_opening hf hat
  exact ⟨time, ⟨front, ho, hat⟩, fun _ h => h.time_eq hf ho hat⟩

/-! ## Every run -/

/-- If the handle stands for a scope at the end of the run, it is the one that was opened at that
time. -/
def Faithful (fresh : Environment) (commands : List Command) (time : Nat) (h : Handle) : Prop :=
  ∀ s, ((ofEnvironment fresh).run commands).environment.scopes.scope? h = some s →
    OpenedAt fresh (lineage commands).branch time s

/-- At the end of the run a scope is live that was not opened right after `before`, but at the same
depth and after as many openings on its own branch. -/
def Reissued (fresh : Environment) (commands before : List Command) : Prop :=
  ∃ front time, time ≠ before.length ∧ Opening (lineage commands).branch front time ∧
    (along fresh front).depth = (along fresh (lineage before).branch).depth ∧
    openings (front.map Prod.snd) = openings ((lineage before).branch.map Prod.snd)

/-- A handle tells the depth and the number of openings, and nothing else of its branch. -/
theorem faithful_iff (hf : Fresh builtins fresh) (commands before : List Command) :
    Faithful fresh commands before.length ⟨(along fresh (lineage before).branch).depth + 1,
        fresh.scopes.nextSerial + openings ((lineage before).branch.map Prod.snd)⟩ ↔
      ¬ Reissued fresh commands before := by
  rw [Faithful, environment_run]
  constructor
  · rintro hfaithful ⟨front, time, hne, ho, hd, hcount⟩
    obtain ⟨s, hs, hhandle⟩ := ho.getElem? hf
    refine hne ((hfaithful s ?_).time_eq hf ho hs).symm
    rw [← hd, ← hcount]
    exact ScopeStack.scope?_eq_some_iff.mpr ⟨hs, hhandle⟩
  · intro hnot s hs
    obtain ⟨hat, hhandle⟩ := ScopeStack.scope?_eq_some_iff.mp hs
    obtain ⟨front, time, ho, hd⟩ := exists_opening hf hat
    obtain ⟨s', hs', hhandle'⟩ := ho.getElem? hf
    obtain rfl : s' = s := by
      rw [hd, hat] at hs'
      exact (Option.some.inj hs').symm
    have hcount : openings (front.map Prod.snd) = _ :=
      Nat.add_left_cancel (Handle.mk.inj (hhandle'.symm.trans hhandle)).2
    by_cases ht : time = before.length
    · exact ht ▸ ⟨front, ho, hd ▸ hat⟩
    · exact absurd ⟨front, time, ht, ho, hd, hcount⟩ hnot

/-- **Backtracking hands out again the handles of the branches that it gives up.** In every run, what
the handle of an opened scope stands for is that scope and no other exactly if no other live scope was
opened at the same depth after as many openings. On the branch on which the handle was given out there
is none: there it stands for its scope until that is closed, and for none from then on, whatever was
saved and tried in between. -/
theorem run_faithful_iff (hf : Fresh builtins fresh) (commands : List Command) :
    ∀ before label after, commands = before ++ .scopes (.openScope label) :: after →
      ∃ h, (((ofEnvironment fresh).run before).environment.exec (.openScope label)).reply =
          .opened h ∧
        (Faithful fresh commands before.length h ↔ ¬ Reissued fresh commands before) ∧
        ∀ front command rest, (lineage commands).branch = front ++ (before.length, command) :: rest →
          Resolves ((ofEnvironment fresh).run before).environment label h (rest.map Prod.snd)
            ((ofEnvironment fresh).run commands).environment := by
  intro before label after hcommands
  rw [environment_run, environment_run]
  refine ⟨((along fresh (lineage before).branch).openScope label).1, rfl, ?_,
    fun front command rest hb => ?_⟩
  · rw [along, hf.opened_eq]
    exact faithful_iff hf commands before
  · obtain ⟨hat, hfront⟩ := dated_lineage commands _ _ _ _ hb
    rw [hcommands, List.take_left] at hfront
    rw [hcommands, List.getElem?_append_right (Nat.le_refl _), Nat.sub_self] at hat
    cases hat
    rw [hb, along_append, ← hfront]
    exact (hf.chained.run (front.map Prod.snd)).resolves label (rest.map Prod.snd)

/-- A handle from before the copy was saved: the parser tries a scope, goes back, and goes on. -/
theorem run_faithful_iff_kept : Fresh ["tax"] (withBuiltins "root" ["tax"]) ∧
    (lineage [.scopes (.openScope "kept"), .save, .scopes (.openScope "tried"), .restore,
        .scopes (.openScope "next")]).branch =
      [] ++ (0, .openScope "kept") :: [(4, .openScope "next")] ∧
    ∃ h, ((withBuiltins "root" ["tax"]).exec (.openScope "kept")).reply = .opened h ∧
      Resolves (withBuiltins "root" ["tax"]) "kept" h [.openScope "next"]
        ((ofEnvironment (withBuiltins "root" ["tax"])).run [.scopes (.openScope "kept"), .save,
          .scopes (.openScope "tried"), .restore, .scopes (.openScope "next")]).environment := by
  have hf : Fresh ["tax"] (withBuiltins "root" ["tax"]) := .withBuiltins "root" _
  refine ⟨hf, rfl, ?_⟩
  obtain ⟨h, hr, -, hresolves⟩ := run_faithful_iff hf
    [.scopes (.openScope "kept"), .save, .scopes (.openScope "tried"), .restore,
      .scopes (.openScope "next")] [] "kept" _ rfl
  exact ⟨h, hr, hresolves [] _ _ rfl⟩

/-- The scope of a branch that was given up had the handle that a second one got: the first handle
stands for the second scope. -/
theorem not_faithful_restored :
    ((ofEnvironment plain).run [.save]).environment.exec (.openScope "a") =
      ⟨(plain.openScope "a").2, .opened ⟨1, 1⟩, [.scopeOpened ⟨1, 1⟩ "a"]⟩ ∧
    (((ofEnvironment plain).run [.save, .scopes (.openScope "a"), .restore,
      .scopes (.openScope "b")]).environment.scopes.scope? ⟨1, 1⟩).map Scope.label = some "b" ∧
    ¬ Faithful plain [.save, .scopes (.openScope "a"), .restore, .scopes (.openScope "b")] 1
      ⟨1, 1⟩ := by
  refine ⟨rfl, rfl, fun hfaithful => ?_⟩
  obtain ⟨front, ⟨label, rest, hb, -⟩, -⟩ := hfaithful _ rfl
  have hmem : (1, .openScope label) ∈ front ++ (1, .openScope label) :: rest :=
    List.mem_append_right _ List.mem_cons_self
  rw [← hb] at hmem
  revert hmem
  simp [lineage, Lineage.exec]

end Trail

end SpacedNames
