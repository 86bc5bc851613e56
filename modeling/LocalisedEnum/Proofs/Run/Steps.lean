import LocalisedEnum.Run

/-!
**What the steps of a run do to its progress.**

A step that fails ends the run with the progress that it left; every other one hands it on.  Most
steps print nothing: all they change are the files, and they add to the log.  What several of them
leave, one after the other, is what the first leaves, then the second, and so on until one fails.

Main definitions:

* `Progress.leave` — progress with other files and more in the log;
* `Run.Leaves` — a step that changes nothing else, and what it may make of the files;
* `Successively` — what steps on the members of a list leave, one after the other.

Main results:

* `result_bind_of_ok`, `result_bind_of_error` — a step behind another;
* `Leaves.mapM` — **steps on the members of a list**.
-/

set_option autoImplicit false
set_option relaxedAutoImplicit false

namespace LocalisedEnum

/-! ### Progress -/

/-- Progress with other files and more in the log. -/
def Progress.leave (p : Progress) (t : FileTree) (entries : List LogEntry) : Progress :=
  { p with tree := t, log := p.log ++ entries }

namespace Progress

@[simp] theorem tree_leave (p : Progress) (t : FileTree) (entries : List LogEntry) :
    (p.leave t entries).tree = t := rfl

@[simp] theorem output_leave (p : Progress) (t : FileTree) (entries : List LogEntry) :
    (p.leave t entries).output = p.output := rfl

@[simp] theorem errors_leave (p : Progress) (t : FileTree) (entries : List LogEntry) :
    (p.leave t entries).errors = p.errors := rfl

theorem leave_leave (p : Progress) (t t' : FileTree) (entries more : List LogEntry) :
    (p.leave t entries).leave t' more = p.leave t' (entries ++ more) := by
  simp only [leave, List.append_assoc]

theorem leave_self (p : Progress) : p.leave p.tree [] = p := by
  simp only [leave, List.append_nil]

end Progress

namespace Run

variable {α β : Type} {p q : Progress}

/-! ### Single steps -/

@[simp] theorem result_pure (a : α) (p : Progress) : Run.result (pure a : Run α) p = (.ok a, p) :=
  rfl

@[simp] theorem result_tree (p : Progress) : Run.result tree p = (.ok p.tree, p) := rfl

@[simp] theorem result_setTree (t : FileTree) (p : Progress) :
    Run.result (setTree t) p = (.ok (), p.leave t []) := by
  rw [Progress.leave, List.append_nil]
  rfl

@[simp] theorem result_note (entries : List LogEntry) (p : Progress) :
    Run.result (note entries) p = (.ok (), p.leave p.tree entries) := rfl

@[simp] theorem result_say (line : String) (p : Progress) :
    Run.result (say line) p = (.ok (), { p with output := p.output ++ line ++ "\n" }) := rfl

@[simp] theorem result_complain (line : CodeText) (p : Progress) :
    Run.result (complain line) p =
      (.ok (), { p with errors := p.errors ++ line ++ .ofString "\n" }) := rfl

@[simp] theorem result_orFail_ok {ε : Type} (f : ε → RunError) (a : α) (p : Progress) :
    Run.result (orFail f (.ok a)) p = (.ok a, p) := rfl

@[simp] theorem result_orFail_error {ε : Type} (f : ε → RunError) (e : ε) (p : Progress) :
    Run.result (orFail f (.error e) : Run α) p = (.error (f e), p) := rfl

/-! ### One step behind another -/

/-- **A step behind one that succeeds** goes on from what that left. -/
theorem result_bind_of_ok {x : Run α} {a : α} (h : Run.result x p = (.ok a, q)) (f : α → Run β) :
    Run.result (x >>= f) p = Run.result (f a) q := by
  have hrun : (x >>= f).run.run p = (ExceptT.bindCont f (x.run.run p).1).run (x.run.run p).2 := rfl
  rw [result] at h
  rw [result, hrun, show x.run.run p = _ from h]
  rfl

/-- **A step behind one that fails** is not taken. -/
theorem result_bind_of_error {x : Run α} {e : RunError} (h : Run.result x p = (.error e, q))
    (f : α → Run β) : Run.result (x >>= f) p = (.error e, q) := by
  have hrun : (x >>= f).run.run p = (ExceptT.bindCont f (x.run.run p).1).run (x.run.run p).2 := rfl
  rw [result] at h
  rw [result, hrun, show x.run.run p = _ from h]
  rfl

/-! ### Steps that print nothing -/

/-- **A step that prints nothing**, with what it may make of the files. -/
def Leaves (x : Run α) (course : FileTree → Except RunError α → FileTree → Prop) : Prop :=
  ∀ p, ∃ r t entries, Run.result x p = (r, p.leave t entries) ∧ course p.tree r t

namespace Leaves

variable {course course' : FileTree → Except RunError α → FileTree → Prop}

/-- A step that changes nothing at all. -/
theorem of_eq {x : Run α} {r : Except RunError α} (h : Run.result x p = (r, p))
    (hcourse : course p.tree r p.tree) :
    ∃ r t entries, Run.result x p = (r, p.leave t entries) ∧ course p.tree r t :=
  ⟨r, p.tree, [], by rw [h, p.leave_self], hcourse⟩

theorem pure (a : α) : Leaves (Pure.pure a) fun t r t' => r = .ok a ∧ t' = t :=
  fun p => ⟨.ok a, p.tree, [], by rw [p.leave_self, result_pure], rfl, rfl⟩

theorem bind {x : Run α} {f : α → Run β} {next : α → FileTree → Except RunError β → FileTree → Prop}
    (hx : Leaves x course) (hf : ∀ a, Leaves (f a) (next a)) :
    Leaves (x >>= f) fun t r t'' => (∃ e, course t (.error e) t'' ∧ r = .error e) ∨
      ∃ a t', course t (.ok a) t' ∧ next a t' r t'' := by
  intro p
  obtain ⟨r, t, entries, hresult, hcourse⟩ := hx p
  cases r with
  | error e =>
      exact ⟨_, t, entries, result_bind_of_error hresult f, .inl ⟨e, hcourse, rfl⟩⟩
  | ok a =>
      obtain ⟨r, t', more, hnext, hcourse'⟩ := hf a (p.leave t entries)
      refine ⟨r, t', entries ++ more, ?_, .inr ⟨a, t, hcourse, hcourse'⟩⟩
      rw [result_bind_of_ok hresult f, hnext, Progress.leave_leave]

theorem mono {x : Run α} (hx : Leaves x course) (h : ∀ t r t', course t r t' → course' t r t') :
    Leaves x course' := by
  intro p
  obtain ⟨r, t, entries, hresult, hcourse⟩ := hx p
  exact ⟨r, t, entries, hresult, h _ _ _ hcourse⟩

end Leaves

end Run

/-! ### Steps on the members of a list -/

section

variable {α β ε σ : Type} {step : α → σ → Except ε β → σ → Prop}

/-- What steps on the members of a list leave, one after the other, until one fails. -/
inductive Successively (step : α → σ → Except ε β → σ → Prop) :
    List α → σ → Except ε (List β) → σ → Prop
  | nil (s : σ) : Successively step [] s (.ok []) s
  | stop {a : α} {s s' : σ} {e : ε} (rest : List α) (h : step a s (.error e) s') :
      Successively step (a :: rest) s (.error e) s'
  | next {a : α} {rest : List α} {s s' s'' : σ} {b : β} {r : Except ε (List β)}
      (h : step a s (.ok b) s') (hrest : Successively step rest s' r s'') :
      Successively step (a :: rest) s (r.map (b :: ·)) s''

namespace Successively

/-- What each step keeps, all of them keep. -/
theorem invariant {P : σ → Prop} {as : List α} {s s' : σ} {r : Except ε (List β)}
    (h : Successively step as s r s') (hstep : ∀ a ∈ as, ∀ s r s', step a s r s' → P s → P s')
    (hs : P s) : P s' := by
  induction h with
  | nil => exact hs
  | stop rest h => exact hstep _ List.mem_cons_self _ _ _ h hs
  | next h _ ih =>
      exact ih (fun a ha => hstep a (List.mem_cons_of_mem _ ha))
        (hstep _ List.mem_cons_self _ _ _ h hs)

/-- What the step on one member brings about and every step keeps holds when all of them succeed. -/
theorem of_mem_of_ok {I Q : σ → Prop} {a : α} {as : List α} {s s' : σ} {r : Except ε (List β)}
    {bs : List β} (h : Successively step as s r s') (hr : r = .ok bs) (hs : I s)
    (hinvariant : ∀ a' ∈ as, ∀ s b s', step a' s (.ok b) s' → I s → I s')
    (hmakes : ∀ s b s', step a s (.ok b) s' → I s → Q s')
    (hkeeps : ∀ a' ∈ as, ∀ s b s', step a' s (.ok b) s' → I s → Q s → Q s') (ha : Q s ∨ a ∈ as) :
    Q s' := by
  induction h generalizing bs with
  | nil => exact ha.resolve_right List.not_mem_nil
  | stop => cases hr
  | @next a' rest s s' s'' b r h _ ih =>
      cases r with
      | error e => cases hr
      | ok bs =>
          refine ih rfl (hinvariant a' List.mem_cons_self _ _ _ h hs)
            (fun a ha => hinvariant a (List.mem_cons_of_mem _ ha))
            (fun a ha => hkeeps a (List.mem_cons_of_mem _ ha)) ?_
          rcases ha with hq | ha
          · exact .inl (hkeeps a' List.mem_cons_self _ _ _ h hs hq)
          · rcases List.mem_cons.1 ha with rfl | ha
            · exact .inl (hmakes _ _ _ h hs)
            · exact .inr ha

/-- When all of them succeed, so does the step on each member. -/
theorem exists_of_mem {as : List α} {s s' : σ} {r : Except ε (List β)} {bs : List β}
    (h : Successively step as s r s') (hr : r = .ok bs) {a : α} (ha : a ∈ as) :
    ∃ s₁ b s₂, step a s₁ (.ok b) s₂ := by
  induction h generalizing bs with
  | nil => cases ha
  | stop => cases hr
  | @next a' rest s s' s'' b r h _ ih =>
      cases r with
      | error e => cases hr
      | ok bs =>
          rcases List.mem_cons.1 ha with rfl | ha
          · exact ⟨s, b, s', h⟩
          · exact ih rfl ha

/-- Steps that change nothing and give the same. -/
theorem constant {as : List α} {s s' : σ} {r : Except ε (List β)} {b : β}
    (h : Successively step as s r s')
    (hstep : ∀ a ∈ as, ∀ r s', step a s r s' → r = .ok b ∧ s' = s) :
    r = .ok (as.map fun _ => b) ∧ s' = s := by
  induction h with
  | nil => exact ⟨rfl, rfl⟩
  | stop rest h =>
      obtain ⟨he, _⟩ := hstep _ List.mem_cons_self _ _ h
      cases he
  | @next a rest s s' s'' b' r h _ ih =>
      obtain ⟨hb, rfl⟩ := hstep _ List.mem_cons_self _ _ h
      cases hb
      obtain ⟨rfl, rfl⟩ := ih fun a ha => hstep a (List.mem_cons_of_mem _ ha)
      exact ⟨rfl, rfl⟩

/-- The steps up to one that fails. -/
theorem exists_of_error {as : List α} {s s' : σ} {r : Except ε (List β)} {e : ε}
    (h : Successively step as s r s') (hr : r = .error e) :
    ∃ done a rest bs s₁, as = done ++ a :: rest ∧ Successively step done s (.ok bs) s₁ ∧
      step a s₁ (.error e) s' := by
  induction h with
  | nil => cases hr
  | stop rest h =>
      cases hr
      exact ⟨[], _, rest, [], _, rfl, .nil _, h⟩
  | @next a as s s' s'' b r h _ ih =>
      cases r with
      | ok bs => cases hr
      | error e' =>
          cases hr
          obtain ⟨done, a', rest, bs, s₁, rfl, hdone, hstep⟩ := ih rfl
          exact ⟨a :: done, a', rest, b :: bs, s₁, rfl, .next (r := .ok bs) h hdone, hstep⟩

end Successively

/-- **Steps on the members of a list**, one after the other. -/
theorem Run.Leaves.mapM {step : α → FileTree → Except RunError β → FileTree → Prop} {f : α → Run β}
    (h : ∀ a, Run.Leaves (f a) (step a)) (as : List α) :
    Run.Leaves (as.mapM f) (Successively step as) := by
  induction as with
  | nil => exact fun p => Run.Leaves.of_eq rfl (.nil _)
  | cons a as ih =>
      rw [List.mapM_cons]
      refine ((h a).bind fun b => ih.bind fun bs => .pure (b :: bs)).mono ?_
      rintro t r t'' (⟨e, hstep, rfl⟩ | ⟨b, t', hstep, ⟨e, hrest, rfl⟩ | ⟨bs, _, hrest, rfl, rfl⟩⟩)
      · exact .stop as hstep
      · exact .next hstep hrest
      · exact .next hstep hrest

end

end LocalisedEnum
