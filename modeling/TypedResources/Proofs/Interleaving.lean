import TypedResources.Proofs.Naming

/-! Workers side by side. As long as nobody cancels, the work on a group comes to the same whatever
happens in between, and the results are gathered in the order of the groups. -/
namespace TypedResources

namespace Trace

variable {α β : Type}

theorem andThen_result (t : Trace α) (next : α → Bool → Trace β) :
    (t.andThen next).result = t.result.bind fun a => (next a t.cancelled).result := by
  cases h : t.result <;> simp [andThen,h,Except.bind]

end Trace

namespace Pool

section Outcome

variable (job : Job) (g : ResourceGroup) (cancelled : Bool)

/-- What a draft comes to if the files that are left are loaded under this token. -/
def Draft.outcome (draft : Draft) (files : List ResourceFile) :
    Except Failure (Artifact × List Diagnostic) :=
  let pass := Loading.pass draft.merged cancelled draft.reporter files
  (pass.result.bind (Generate.artifact job g draft.settings)).map (·,pass.reporter.diagnostics)

/-- The stages from which the work on a group comes to a result under this token. -/
inductive Leads (result : Except Failure (Artifact × List Diagnostic)) : Stage → Prop
  | queued (whole : (Generate.group job g cancelled).result = result) : Leads result .queued
  | loading {draft : Draft} {files : List ResourceFile} (leave : LeaveToken files)
      (left : draft.outcome job g cancelled files = result) : Leads result (.loading draft files)
  | asking {draft : Draft} {file : ResourceFile} {rest : List ResourceFile}
      (leave : LeaveToken (file :: rest)) (uncancelled : cancelled = false)
      (left : draft.outcome job g cancelled (file :: rest) = result) :
      Leads result (.asking draft file rest)
  | finished : Leads result (.finished result)

theorem group_result_eq_outcome :
    (Generate.group job g cancelled).result =
      match Settings.resolveWith job.current job.options job.assemblyName g
        (Reporter.empty.note (Generate.groupRecord g)) with
      | (.ok settings,reporter) =>
        Draft.outcome job g cancelled ⟨settings,reporter,[]⟩ (ResourceGroup.sortFiles g.files)
      | (.error failure,_) => .error failure := by
  rw [Generate.group]
  cases hs : Settings.resolveWith job.current job.options job.assemblyName g
    (Reporter.empty.note (Generate.groupRecord g)) with
  | mk found reporter => cases found <;> rfl

variable {job g cancelled} {result : Except Failure (Artifact × List Diagnostic)}

theorem Leads.of_finished {made : Except Failure (Artifact × List Diagnostic)}
    (h : Leads job g cancelled result (.finished made)) : result = made := by
  cases h
  rfl

theorem Draft.outcome_cons {draft : Draft} {file : ResourceFile} {rest : List ResourceFile}
    (h : file.cancels = false) :
    draft.outcome job g cancelled (file :: rest) =
      match Loading.contribution (file.read cancelled) with
      | .entries entries =>
        Draft.outcome job g cancelled
          { draft with merged := Merge.addAll draft.merged entries } rest
      | .nothing => draft.outcome job g cancelled rest
      | .unusable =>
        (Generate.artifact job g draft.settings none).map
          (·,(Loading.giveUp file.path draft.reporter).diagnostics)
      | .failed failure => .error failure := by
  simp only [Draft.outcome,Loading.pass,ResourceFile.cancelledAfter,h,Bool.or_false]
  cases Loading.contribution (file.read cancelled) <;> rfl

theorem leads_afterAnswer {draft : Draft} {file : ResourceFile} {rest : List ResourceFile}
    (hleave : LeaveToken (file :: rest))
    (h : draft.outcome job g false (file :: rest) = result) :
    Leads job g false result (Stage.afterAnswer job g draft file rest) := by
  have hrest : LeaveToken rest := fun f hf => hleave f (by simp [hf])
  have hread : file.read false = file.content := rfl
  rw [Draft.outcome_cons (hleave file (by simp)),hread] at h
  unfold Stage.afterAnswer
  cases hc : Loading.contribution file.content with
  | entries entries => rw [hc] at h; exact .loading hrest h
  | nothing => rw [hc] at h; exact .loading hrest h
  | unusable => rw [hc] at h; subst h; exact .finished
  | failed failure => rw [hc] at h; subst h; exact .finished

/-- A step does not change what the work on a group comes to. -/
theorem leads_next (hg : LeaveToken g.files) {stage : Stage}
    (h : Leads job g cancelled result stage) :
    stage.cancels = false ∧ Leads job g cancelled result (stage.next job g cancelled) := by
  cases h with
  | queued whole =>
    refine ⟨rfl,?_⟩
    rw [group_result_eq_outcome] at whole
    simp only [Stage.next]
    cases hs : Settings.resolveWith job.current job.options job.assemblyName g
      (Reporter.empty.note (Generate.groupRecord g)) with
    | mk found reporter =>
      rw [hs] at whole
      cases found with
      | error failure => subst whole; exact .finished
      | ok settings =>
        have hsorted := ResourceGroup.sortFiles_perm g.files
        exact .loading (fun f hf => hg f (hsorted.mem_iff.mp hf)) whole
  | @loading draft files leave left =>
    refine ⟨rfl,?_⟩
    cases files with
    | nil => subst left; exact .finished
    | cons file rest =>
      cases cancelled with
      | false => exact .asking leave rfl left
      | true =>
        rw [Draft.outcome_cons (leave file (by simp))] at left
        subst left
        exact .finished
  | @asking draft file rest leave uncancelled left =>
    subst uncancelled
    exact ⟨leave file (by simp),leads_afterAnswer leave left⟩
  | finished => exact ⟨rfl,.finished⟩

end Outcome

/-- The token is as it was, and the work on every group comes to what the group gives alone. -/
structure OnCourse (job : Job) (cancelled : Bool) (s : State) : Prop where
  token : s.cancelled = cancelled
  leave : ∀ w ∈ s.work, LeaveToken w.1.files
  leads : ∀ w ∈ s.work, Leads job w.1 cancelled (Generate.group job w.1 cancelled).result w.2

theorem onCourse_start {files : List ResourceFile} (h : LeaveToken files) (job : Job)
    (cancelled : Bool) : OnCourse job cancelled (start files cancelled) := by
  refine ⟨rfl,fun w hw => ?_,fun w hw => ?_⟩
  · obtain ⟨g,hg,rfl⟩ := List.mem_map.mp hw
    exact h.of_mem_ofAll hg
  · obtain ⟨g,-,rfl⟩ := List.mem_map.mp hw
    exact .queued rfl

theorem onCourse_step {job : Job} {cancelled : Bool} {s : State} (h : OnCourse job cancelled s)
    (index : Nat) : OnCourse job cancelled (s.after job (.step index)) := by
  cases hw : s.work[index]? with
  | none => rwa [State.after_step_of_none job hw]
  | some w =>
    have hmem := List.mem_of_getElem? hw
    obtain ⟨hquiet,hnext⟩ := leads_next (h.leave w hmem) (h.leads w hmem)
    rw [State.after_step job hw]
    refine ⟨by rw [hquiet,Bool.or_false,h.token],fun v hv => ?_,fun v hv => ?_⟩
    · rcases List.mem_or_eq_of_mem_set hv with hv | rfl
      · exact h.leave v hv
      · exact h.leave w hmem
    · rcases List.mem_or_eq_of_mem_set hv with hv | rfl
      · exact h.leads v hv
      · rw [h.token]
        exact hnext

def Stage.isFinished : Stage → Bool
  | .finished _ => true
  | _ => false

/-- A worker has begun and has not finished. -/
def Stage.isBusy : Stage → Bool
  | .loading .. => true
  | .asking .. => true
  | _ => false

def State.busy (s : State) : Nat := s.work.countP fun w => w.2.isBusy

/-- One of so many workers can make the step: there is something left to do, and no more groups are
under way after it than there are workers. -/
def Allowed (job : Job) (workers : Nat) (s : State) (event : Event) : Prop :=
  ∃ index w, event = .step index ∧ s.work[index]? = some w ∧ w.2.isFinished = false ∧
    (s.after job event).busy ≤ workers

/-- A way in which the steps of so many workers can mix while nobody cancels. -/
def Steady (job : Job) (workers : Nat) : State → List Event → Prop
  | _, [] => True
  | s, event :: rest => Allowed job workers s event ∧ Steady job workers (s.after job event) rest

theorem onCourse_steady {job : Job} {cancelled : Bool} {workers : Nat} {schedule : List Event}
    {s : State} (h : OnCourse job cancelled s) (hsteady : Steady job workers s schedule) :
    OnCourse job cancelled (schedule.foldl (State.after job) s) := by
  induction schedule generalizing s with
  | nil => exact h
  | cons event rest ih =>
    obtain ⟨⟨index,-,rfl,-⟩,hrest⟩ := hsteady
    exact ih (onCourse_step h index) hrest

theorem groups_schedule (job : Job) (schedule : List Event) (s : State) :
    (schedule.foldl (State.after job) s).work.map (·.1) = s.work.map (·.1) := by
  induction schedule generalizing s with
  | nil => rfl
  | cons event rest ih => exact (ih (s.after job event)).trans (groups_after job s event)

theorem groups_cons_result {g : ResourceGroup} (h : LeaveToken g.files) (job : Job)
    (cancelled : Bool) (rest : List ResourceGroup) :
    (Generate.groups job cancelled (g :: rest)).result =
      (Generate.group job g cancelled).result.bind fun made =>
        (Generate.groups job cancelled rest).result.map (made :: ·) := by
  rw [Generate.groups,Trace.andThen_result,Generate.group_cancelled h]
  rfl

/-- Results that are there are those of working off one group after the other. -/
theorem gathered_of_leads {job : Job} {cancelled : Bool} {work : List (ResourceGroup × Stage)}
    (hleave : ∀ w ∈ work, LeaveToken w.1.files)
    (hleads : ∀ w ∈ work, Leads job w.1 cancelled (Generate.group job w.1 cancelled).result w.2)
    {made : Except Failure (List (Artifact × List Diagnostic))}
    (hmade : gathered work = some made) :
    (Generate.groups job cancelled (work.map (·.1))).result = made := by
  induction work generalizing made with
  | nil => exact Option.some.inj hmade
  | cons w rest ih =>
    have hrest : ∀ {made}, gathered rest = some made →
        (Generate.groups job cancelled (rest.map (·.1))).result = made :=
      ih (fun v hv => hleave v (by simp [hv])) fun v hv => hleads v (by simp [hv])
    have hw := hleads w (by simp)
    rw [List.map_cons,groups_cons_result (hleave w (by simp))]
    obtain ⟨g,stage⟩ := w
    cases stage with
    | queued => simp [gathered] at hmade
    | loading draft files => simp [gathered] at hmade
    | asking draft file files => simp [gathered] at hmade
    | finished result =>
      rw [hw.of_finished]
      cases result with
      | error failure => exact Option.some.inj hmade
      | ok m =>
        obtain ⟨others,hothers,rfl⟩ := Option.map_eq_some_iff.mp hmade
        rw [Except.bind,hrest hothers]

theorem exists_gathered {work : List (ResourceGroup × Stage)}
    (h : ∀ w ∈ work, w.2.isFinished = true) : ∃ made, gathered work = some made := by
  induction work with
  | nil => exact ⟨_,rfl⟩
  | cons w rest ih =>
    obtain ⟨others,hothers⟩ := ih fun v hv => h v (by simp [hv])
    have hfinished := h w (by simp)
    obtain ⟨g,stage⟩ := w
    cases stage with
    | queued => simp [Stage.isFinished] at hfinished
    | loading draft files => simp [Stage.isFinished] at hfinished
    | asking draft file files => simp [Stage.isFinished] at hfinished
    | finished result =>
      cases result with
      | error failure => exact ⟨_,rfl⟩
      | ok m => exact ⟨_,by rw [gathered,hothers]; rfl⟩

section Progress

def Stage.left (g : ResourceGroup) : Stage → Nat
  | .queued => 2*g.files.length + 2
  | .loading _ files => 2*files.length + 1
  | .asking _ _ rest => 2*rest.length + 2
  | .finished _ => 0

def leftIn : List (ResourceGroup × Stage) → Nat
  | [] => 0
  | w :: rest => w.2.left w.1 + leftIn rest

def State.left (s : State) : Nat := leftIn s.work

theorem left_next (job : Job) (g : ResourceGroup) {stage : Stage} (h : stage.isFinished = false)
    (cancelled : Bool) : (stage.next job g cancelled).left g < stage.left g := by
  cases stage with
  | queued =>
    simp only [Stage.next]
    split
    · have hlength := (ResourceGroup.sortFiles_perm g.files).length_eq
      simp only [Stage.left]
      omega
    · simp [Stage.left]
  | loading draft files =>
    cases files with
    | nil => simp [Stage.next,Stage.ofLoaded,Stage.left]
    | cons file rest =>
      simp only [Stage.next]
      split
      · simp [Stage.ofUnusable,Stage.ofLoaded,Stage.left]
      · simp only [Stage.left,List.length_cons]
        omega
  | asking draft file rest =>
    simp only [Stage.next,Stage.afterAnswer]
    split <;> simp [Stage.ofUnusable,Stage.ofLoaded,Stage.left]
  | finished result => simp [Stage.isFinished] at h

theorem leftIn_set_lt {work : List (ResourceGroup × Stage)} {i : Nat} {v w : ResourceGroup × Stage}
    (hw : work[i]? = some w) (hlt : v.2.left v.1 < w.2.left w.1) :
    leftIn (work.set i v) < leftIn work := by
  induction work generalizing i with
  | nil => simp at hw
  | cons first rest ih =>
    cases i with
    | zero =>
      obtain rfl := Option.some.inj hw
      simpa [leftIn] using hlt
    | succ i =>
      have hrest := @ih i (by simpa using hw)
      simpa [leftIn] using hrest

theorem left_after {job : Job} {workers : Nat} {s : State} {event : Event}
    (h : Allowed job workers s event) : (s.after job event).left < s.left := by
  obtain ⟨index,w,rfl,hw,hunfinished,-⟩ := h
  rw [State.after_step job hw]
  exact leftIn_set_lt hw (left_next job w.1 hunfinished s.cancelled)

theorem length_le_left {job : Job} {workers : Nat} {schedule : List Event} {s : State}
    (h : Steady job workers s schedule) : schedule.length ≤ s.left := by
  induction schedule generalizing s with
  | nil => simp
  | cons event rest ih =>
    have hlt := left_after h.1
    have hle := ih h.2
    rw [List.length_cons]
    omega

theorem busy_steady {job : Job} {workers : Nat} {schedule : List Event} {s : State}
    (h : Steady job workers s schedule) (hs : s.busy ≤ workers) :
    (schedule.foldl (State.after job) s).busy ≤ workers := by
  induction schedule generalizing s with
  | nil => exact hs
  | cons event rest ih =>
    obtain ⟨-,-,-,-,-,hbusy⟩ := h.1
    exact ih h.2 hbusy

theorem steady_concat {job : Job} {workers : Nat} {schedule : List Event} {s : State}
    {event : Event} (h : Steady job workers s schedule)
    (hevent : Allowed job workers (schedule.foldl (State.after job) s) event) :
    Steady job workers s (schedule ++ [event]) := by
  induction schedule generalizing s with
  | nil => exact ⟨hevent,trivial⟩
  | cons first rest ih => exact ⟨h.1,ih h.2 hevent⟩

/-- As long as a group is not finished, some worker can go on. -/
theorem exists_allowed (job : Job) {workers : Nat} (hpos : 0 < workers) {s : State}
    (hs : s.busy ≤ workers) {w : ResourceGroup × Stage} (hw : w ∈ s.work)
    (hunfinished : w.2.isFinished = false) : ∃ event, Allowed job workers s event := by
  have hstep : ∀ index v, s.work[index]? = some v →
      (s.after job (.step index)).busy ≤ s.busy - (if v.2.isBusy then 1 else 0) + 1 := by
    intro index v hv
    obtain ⟨hlt,rfl⟩ := List.getElem?_eq_some_iff.mp hv
    rw [State.after_step job hv,State.busy,List.countP_set hlt]
    simp only [State.busy]
    split <;> split <;> omega
  by_cases hbusy : ∃ v ∈ s.work, v.2.isBusy = true
  · obtain ⟨v,hv,hvbusy⟩ := hbusy
    obtain ⟨index,hindex⟩ := List.mem_iff_getElem?.mp hv
    have hv' : v.2.isFinished = false := by
      cases hstage : v.2 <;> simp_all [Stage.isBusy,Stage.isFinished]
    have hsome : 0 < s.busy := List.countP_pos_iff.mpr ⟨v,hv,hvbusy⟩
    have hafter := hstep index v hindex
    rw [if_pos hvbusy] at hafter
    exact ⟨_,index,v,rfl,hindex,hv',by omega⟩
  · obtain ⟨index,hindex⟩ := List.mem_iff_getElem?.mp hw
    have hnone : s.busy = 0 := List.countP_eq_zero.mpr fun v hv hvbusy => hbusy ⟨v,hv,hvbusy⟩
    have hafter := hstep index w hindex
    exact ⟨_,index,w,rfl,hindex,hunfinished,by omega⟩

/-- Where no worker can go on, the results are there. -/
theorem exists_gathered_of_stuck {job : Job} {workers : Nat} (hpos : 0 < workers)
    {schedule : List Event} {s : State} (hs : s.busy ≤ workers)
    (h : Steady job workers s schedule)
    (hstuck : ∀ event, ¬ Steady job workers s (schedule ++ [event])) :
    ∃ made, gathered (schedule.foldl (State.after job) s).work = some made := by
  refine exists_gathered fun w hw => ?_
  by_contra hunfinished
  obtain ⟨event,hevent⟩ := exists_allowed job hpos (busy_steady h hs) hw
    (Bool.eq_false_of_not_eq_true hunfinished)
  exact hstuck event (steady_concat h hevent)

/-- Workers that go on for as long as they can come to an end. -/
theorem exists_steady_end (job : Job) {workers : Nat} (hpos : 0 < workers) {s : State}
    (hs : s.busy ≤ workers) : ∃ schedule made, Steady job workers s schedule ∧
      gathered (schedule.foldl (State.after job) s).work = some made := by
  have hlongest : ∀ n schedule, Steady job workers s schedule → s.left ≤ schedule.length + n →
      ∃ longer made, Steady job workers s longer ∧
        gathered (longer.foldl (State.after job) s).work = some made := by
    intro n
    induction n with
    | zero =>
      intro schedule h hleft
      obtain ⟨made,hmade⟩ := exists_gathered_of_stuck hpos hs h fun event hlonger => by
        have hle := length_le_left hlonger
        rw [List.length_append,List.length_singleton] at hle
        omega
      exact ⟨schedule,made,h,hmade⟩
    | succ n ih =>
      intro schedule h hleft
      by_cases hmore : ∃ event, Steady job workers s (schedule ++ [event])
      · obtain ⟨event,hlonger⟩ := hmore
        refine ih _ hlonger ?_
        rw [List.length_append,List.length_singleton]
        omega
      · obtain ⟨made,hmade⟩ := exists_gathered_of_stuck hpos hs h (not_exists.mp hmore)
        exact ⟨schedule,made,h,hmade⟩
  exact hlongest s.left [] trivial (by simp)

end Progress

theorem busy_start (files : List ResourceFile) (cancelled : Bool) :
    (start files cancelled).busy = 0 := by
  refine List.countP_eq_zero.mpr fun w hw => ?_
  obtain ⟨g,-,rfl⟩ := List.mem_map.mp hw
  simp [Stage.isBusy]

/-- The results of a schedule without cancellation are those of working off one group after the
other. -/
theorem gathered_of_steady {files : List ResourceFile} (h : LeaveToken files) {job : Job}
    {cancelled : Bool} {workers : Nat} {schedule : List Event}
    (hsteady : Steady job workers (start files cancelled) schedule)
    {made : Except Failure (List (Artifact × List Diagnostic))}
    (hmade : gathered (schedule.foldl (State.after job) (start files cancelled)).work = some made) :
    (Generate.groups job cancelled (ResourceGroup.ofAll files)).result = made := by
  have hcourse := onCourse_steady (onCourse_start h job cancelled) hsteady
  have hgroups : (schedule.foldl (State.after job) (start files cancelled)).work.map (·.1) =
      ResourceGroup.ofAll files := by
    rw [groups_schedule]
    simp [start,Function.comp_def]
  rw [← hgroups]
  exact gathered_of_leads hcourse.leave hcourse.leads hmade

end Pool

namespace Generate

/-- A run with some number of workers that nobody cancels can end with the result. One worker, or
one group, makes it a run of one group after the other. -/
def EndsSteadily (job : Job) (files : List ResourceFile) (cancelled : Bool) (workers : Int)
    (result : Except Failure Output) : Prop :=
  if 1 < workers ∧ 1 < (ResourceGroup.ofAll files).length then
    ∃ schedule made, Pool.Steady job workers.toNat (Pool.start files cancelled) schedule ∧
      Pool.gathered (schedule.foldl (Pool.State.after job) (Pool.start files cancelled)).work =
        some made ∧ result = made.map gather
  else (run job files cancelled).result = result

theorem groups_result_eq_error {gs : List ResourceGroup} (h : ∀ g ∈ gs, LeaveToken g.files)
    (job : Job) (cancelled : Bool) (failure : Failure) :
    (groups job cancelled gs).result = .error failure ↔
      ∃ before g after, gs = before ++ g :: after ∧
        (∀ x ∈ before, ∃ made, (group job x cancelled).result = .ok made) ∧
        (group job g cancelled).result = .error failure := by
  induction gs with
  | nil => simp [groups]
  | cons g rest ih =>
    have hrest := ih fun x hx => h x (by simp [hx])
    rw [Pool.groups_cons_result (h g (by simp))]
    cases hg : (group job g cancelled).result with
    | error e =>
      rw [Except.bind,Except.error.injEq]
      constructor
      · rintro rfl
        exact ⟨[],g,rest,rfl,by simp,hg⟩
      · rintro ⟨before,x,after,hsplit,hbefore,hx⟩
        cases before with
        | nil =>
          obtain ⟨rfl,-⟩ := List.cons.inj hsplit
          exact Except.error.inj (hg.symm.trans hx)
        | cons y ys =>
          obtain ⟨rfl,-⟩ := List.cons.inj hsplit
          obtain ⟨made,hmade⟩ := hbefore g (by simp)
          simp [hg] at hmade
    | ok m =>
      have hmap : ((groups job cancelled rest).result.map (m :: ·)) = .error failure ↔
          (groups job cancelled rest).result = .error failure := by
        cases (groups job cancelled rest).result <;> simp [Except.map]
      rw [Except.bind,hmap,hrest]
      constructor
      · rintro ⟨before,x,after,rfl,hbefore,hx⟩
        refine ⟨g :: before,x,after,rfl,?_,hx⟩
        exact List.forall_mem_cons.mpr ⟨⟨m,hg⟩,hbefore⟩
      · rintro ⟨before,x,after,hsplit,hbefore,hx⟩
        cases before with
        | nil =>
          obtain ⟨rfl,-⟩ := List.cons.inj hsplit
          simp [hg] at hx
        | cons y ys =>
          obtain ⟨-,rfl⟩ := List.cons.inj hsplit
          exact ⟨ys,x,after,rfl,fun z hz => hbefore z (by simp [hz]),hx⟩

theorem run_result_eq_error {files : List ResourceFile} (h : LeaveToken files) (job : Job)
    (cancelled : Bool) (failure : Failure) :
    (run job files cancelled).result = .error failure ↔
      ∃ before g after, ResourceGroup.ofAll files = before ++ g :: after ∧
        (∀ x ∈ before, ∃ made, (group job x cancelled).result = .ok made) ∧
        (group job g cancelled).result = .error failure := by
  rw [← groups_result_eq_error (fun _ => h.of_mem_ofAll),run_result]
  cases (groups job cancelled (ResourceGroup.ofAll files)).result <;> simp [Except.map]

/-- What some number of workers makes of files is what one worker makes of them. -/
structure AsSequential (job : Job) (files : List ResourceFile) (cancelled : Bool) (workers : Int) :
    Prop where
  result : ∀ result, EndsSteadily job files cancelled workers result ↔
    result = (run job files cancelled).result
  /-- The workers cannot go on for ever, and where they cannot go on they have the results. -/
  ends : 1 < workers → ∀ schedule,
    Pool.Steady job workers.toNat (Pool.start files cancelled) schedule →
      schedule.length ≤ (Pool.start files cancelled).left ∧
      ((∀ event, ¬ Pool.Steady job workers.toNat (Pool.start files cancelled)
          (schedule ++ [event])) →
        ∃ made, Pool.gathered
          (schedule.foldl (Pool.State.after job) (Pool.start files cancelled)).work = some made)
  ordered : (ResourceGroup.ofAll files).Pairwise fun g h => g.key < h.key
  output : ∀ out, EndsSteadily job files cancelled workers (.ok out) ↔
    ∃ made, List.Forall₂ (fun g m => (group job g cancelled).result = .ok m)
        (ResourceGroup.ofAll files) made ∧
      out = ⟨made.map (·.1),made.flatMap (·.2)⟩
  failure : ∀ failure, EndsSteadily job files cancelled workers (.error failure) ↔
    ∃ before g after, ResourceGroup.ofAll files = before ++ g :: after ∧
      (∀ x ∈ before, ∃ made, (group job x cancelled).result = .ok made) ∧
      (group job g cancelled).result = .error failure

theorem endsSteadily_iff {files : List ResourceFile} (h : LeaveToken files) (job : Job)
    (cancelled : Bool) (workers : Int) (result : Except Failure Output) :
    EndsSteadily job files cancelled workers result ↔
      result = (run job files cancelled).result := by
  unfold EndsSteadily
  split
  · rename_i hworkers
    constructor
    · rintro ⟨schedule,made,hsteady,hmade,rfl⟩
      rw [run_result,Pool.gathered_of_steady h hsteady hmade]
    · rintro rfl
      have hidle : (Pool.start files cancelled).busy ≤ workers.toNat := by
        rw [Pool.busy_start]
        omega
      obtain ⟨schedule,made,hsteady,hmade⟩ := Pool.exists_steady_end job (by omega) hidle
      refine ⟨schedule,made,hsteady,hmade,?_⟩
      rw [run_result,Pool.gathered_of_steady h hsteady hmade]
  · exact eq_comm

/-- Workers side by side make of files what one worker makes of them, however their steps mix. -/
theorem workers_as_sequential {files : List ResourceFile} (h : LeaveToken files) (job : Job)
    (cancelled : Bool) (workers : Int) : AsSequential job files cancelled workers := by
  refine ⟨endsSteadily_iff h job cancelled workers,fun hworkers schedule hsteady => ?_,
    ResourceGroup.ofAll_keys_lt files,fun out => ?_,fun failure => ?_⟩
  · refine ⟨Pool.length_le_left hsteady,Pool.exists_gathered_of_stuck (by omega) ?_ hsteady⟩
    rw [Pool.busy_start]
    omega
  · rw [endsSteadily_iff h,eq_comm,run_result_eq_ok h]
  · rw [endsSteadily_iff h,eq_comm,run_result_eq_error h]

/-- Two workers, one for each of two files of one name. -/
theorem namesakes_as_sequential : LeaveToken namesakes ∧
    1 < (ResourceGroup.ofAll namesakes).length ∧ AsSequential namingJob namesakes false 2 := by
  have hleave : LeaveToken namesakes := by simp [LeaveToken,namesakes,ResourceFile.ofText]
  exact ⟨hleave,by simp [ofAll_namesakes],workers_as_sequential hleave namingJob false 2⟩

end Generate
end TypedResources
