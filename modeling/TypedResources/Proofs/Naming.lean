import Mathlib.Data.List.Forall2
import Mathlib.Data.List.Nodup
import TypedResources.Proofs.Account
import TypedResources.Run.Pool

/-! Names of artifacts. An artifact is named after the last component of its group's key, so that
groups in different directories can share a name; what is found under a name is the first artifact
that bears it. -/
namespace TypedResources

namespace Pool

/-- Whatever the work on a group comes to, an artifact bears the group's name. -/
def Named (g : ResourceGroup) (stage : Stage) : Prop :=
  ∀ made, stage = .finished (.ok made) → made.1.hintName = Generate.artifactName g.key

theorem named_ofLoaded (job : Job) (g : ResourceGroup) (settings : Settings)
    (entries : Option (List Entry)) (reporter : Reporter) :
    Named g (Stage.ofLoaded job g settings entries reporter) := by
  intro made hmade
  have hresult := Stage.finished.inj hmade
  obtain ⟨a,ha,rfl⟩ := (Except.map_eq_ok_iff _ _ _).mp hresult
  exact Generate.artifact_hintName ha

theorem named_afterAnswer (job : Job) (g : ResourceGroup) (draft : Draft) (file : ResourceFile)
    (rest : List ResourceFile) : Named g (Stage.afterAnswer job g draft file rest) := by
  unfold Stage.afterAnswer
  cases Loading.contribution file.content with
  | entries found => simp [Named]
  | nothing => simp [Named]
  | unusable => exact named_ofLoaded job g _ _ _
  | failed failure => simp [Named]

/-- A step keeps to the name of the group. -/
theorem named_next (job : Job) {g : ResourceGroup} {stage : Stage} (h : Named g stage)
    (cancelled : Bool) : Named g (stage.next job g cancelled) := by
  cases stage with
  | queued =>
    simp only [Stage.next]
    split <;> simp [Named]
  | loading draft files =>
    cases files with
    | nil => exact named_ofLoaded job g _ _ _
    | cons file rest =>
      simp only [Stage.next]
      split
      · exact named_ofLoaded job g _ _ _
      · simp [Named]
  | asking draft file rest => exact named_afterAnswer job g draft file rest
  | finished result => exact h

def NamedAfter (gs : List ResourceGroup) (work : List (ResourceGroup × Stage)) : Prop :=
  work.map (·.1) = gs ∧ ∀ w ∈ work, Named w.1 w.2

theorem namedAfter_start (files : List ResourceFile) (cancelled : Bool) :
    NamedAfter (ResourceGroup.ofAll files) (start files cancelled).work := by
  refine ⟨by simp [start,Function.comp_def],?_⟩
  intro w hw
  obtain ⟨g,-,rfl⟩ := List.mem_map.mp hw
  simp [Named]

/-- Nothing that happens adds a group, drops one or moves one. -/
theorem groups_after (job : Job) (s : State) (event : Event) :
    (s.after job event).work.map (·.1) = s.work.map (·.1) := by
  cases event with
  | cancel => rfl
  | step index =>
    cases hw : s.work[index]? with
    | none => rw [State.after_step_of_none job hw]
    | some w =>
      obtain ⟨hlt,hget⟩ := List.getElem?_eq_some_iff.mp hw
      have hlen : index < (s.work.map (·.1)).length := by simpa using hlt
      have hsame := List.set_getElem_self hlen
      rw [List.getElem_map,hget] at hsame
      rw [State.after_step job hw,List.map_set,hsame]

theorem namedAfter_after (job : Job) {gs : List ResourceGroup} {s : State}
    (h : NamedAfter gs s.work) (event : Event) : NamedAfter gs (s.after job event).work := by
  refine ⟨(groups_after job s event).trans h.1,?_⟩
  cases event with
  | cancel => exact h.2
  | step index =>
    cases hw : s.work[index]? with
    | none =>
      rw [State.after_step_of_none job hw]
      exact h.2
    | some w =>
      rw [State.after_step job hw]
      intro v hv
      rcases List.mem_or_eq_of_mem_set hv with hv | rfl
      · exact h.2 v hv
      · exact named_next job (h.2 w (List.mem_of_getElem? hw)) _

/-- Along every schedule the artifacts bear the names of their groups. -/
theorem namedAfter_schedule (job : Job) {gs : List ResourceGroup} (schedule : List Event)
    {s : State} (h : NamedAfter gs s.work) :
    NamedAfter gs (schedule.foldl (State.after job) s).work := by
  induction schedule generalizing s with
  | nil => exact h
  | cons event rest ih => exact ih (namedAfter_after job h event)

/-- Results that are all there and no failures are those of finished work. -/
theorem finished_of_gathered {work : List (ResourceGroup × Stage)}
    {made : List (Artifact × List Diagnostic)} (h : gathered work = some (.ok made)) :
    List.Forall₂ (fun w m => w.2 = .finished (.ok m)) work made := by
  induction work generalizing made with
  | nil =>
    obtain rfl := Except.ok.inj (Option.some.inj h)
    exact .nil
  | cons w rest ih =>
    obtain ⟨g,stage⟩ := w
    cases stage with
    | queued => simp [gathered] at h
    | loading draft files => simp [gathered] at h
    | asking draft file files => simp [gathered] at h
    | finished result =>
      cases result with
      | error failure => simp [gathered] at h
      | ok m =>
        obtain ⟨others,hothers,hmap⟩ := Option.map_eq_some_iff.mp h
        obtain ⟨ms,rfl,rfl⟩ := (Except.map_eq_ok_iff _ _ _).mp hmap
        exact .cons rfl (ih hothers)

theorem hintNames_of_gathered {gs : List ResourceGroup} {work : List (ResourceGroup × Stage)}
    (hwork : NamedAfter gs work) {made : List (Artifact × List Diagnostic)}
    (h : gathered work = some (.ok made)) :
    made.map (·.1.hintName) = gs.map fun g => Generate.artifactName g.key := by
  obtain ⟨rfl,hnamed⟩ := hwork
  have hfinished := finished_of_gathered h
  clear h
  induction hfinished with
  | nil => rfl
  | cons hstage _ ih =>
    rw [List.map_cons,List.map_cons,List.map_cons,hnamed _ (by simp) _ hstage,
      ih fun w hw => hnamed w (by simp [hw])]

end Pool

def ResourceGroup.lastComponent (g : ResourceGroup) : List Char := Path.baseName g.key.toList

namespace Generate

def nameOf (component : List Char) : String := String.ofList component ++ ".resx.g.cs"

theorem artifactName_eq (g : ResourceGroup) : artifactName g.key = nameOf g.lastComponent := rfl

theorem nameOf_injective : Function.Injective nameOf := by
  intro c d h
  have hchars := congrArg String.toList h
  simpa [nameOf] using hchars

theorem groups_hintNames {job : Job} {cancelled : Bool} {gs : List ResourceGroup}
    {made : List (Artifact × List Diagnostic)} (h : (groups job cancelled gs).result = .ok made) :
    made.map (·.1.hintName) = gs.map fun g => artifactName g.key := by
  induction gs generalizing cancelled made with
  | nil =>
    obtain rfl := Except.ok.inj h
    rfl
  | cons g rest ih =>
    obtain ⟨m,ms,rfl,hm,hms,-,-⟩ := groups_cons_of_ok h
    rw [List.map_cons,List.map_cons,group_hintName hm,ih hms]

/-- However many workers there are, the artifacts bear the names of the groups in their order. -/
theorem hintNames_of_ends {job : Job} {files : List ResourceFile} {cancelled : Bool} {workers : Int}
    {out : Output} (h : Ends job files cancelled workers (.ok out)) :
    out.artifacts.map (·.hintName) =
      (ResourceGroup.ofAll files).map fun g => nameOf g.lastComponent := by
  have hmade : ∃ made, out = gather made ∧ made.map (·.1.hintName) =
      (ResourceGroup.ofAll files).map fun g => artifactName g.key := by
    unfold Ends at h
    split at h
    · obtain ⟨schedule,result,hgathered,hout⟩ := h
      obtain ⟨made,rfl,rfl⟩ := (Except.map_eq_ok_iff _ _ _).mp hout.symm
      have hnamed := Pool.namedAfter_schedule job schedule (Pool.namedAfter_start files cancelled)
      exact ⟨made,rfl,Pool.hintNames_of_gathered hnamed hgathered⟩
    · rw [run_result,Except.map_eq_ok_iff] at h
      obtain ⟨made,hmade,rfl⟩ := h
      exact ⟨made,rfl,groups_hintNames hmade⟩
  obtain ⟨made,rfl,hnames⟩ := hmade
  rw [gather_eq,List.map_map]
  exact hnames.trans (List.map_congr_left fun g _ => artifactName_eq g)

end Generate

/-- Under the name of an artifact stands the first one of that name. -/
theorem Output.exists_first (out : Output) {i : Nat} (hi : i < out.artifacts.length) :
    ∃ j, ∃ hj : j < out.artifacts.length,
      out.artifact? out.artifacts[i].hintName = some out.artifacts[j] ∧
        out.indexOf? out.artifacts[i].hintName = some j ∧
        out.artifacts[j].hintName = out.artifacts[i].hintName ∧
        ∀ k (hk : k < out.artifacts.length),
          out.artifacts[k].hintName = out.artifacts[i].hintName → j ≤ k := by
  have hsome : (out.artifact? out.artifacts[i].hintName).isSome := by
    rw [artifact?,List.find?_isSome]
    exact ⟨out.artifacts[i],List.getElem_mem hi,by simp⟩
  obtain ⟨a,ha⟩ := Option.isSome_iff_exists.mp hsome
  obtain ⟨hname,j,hj,rfl,hbefore⟩ := List.find?_eq_some_iff_getElem.mp ha
  refine ⟨j,hj,ha,?_,by simpa using hname,?_⟩
  · rw [indexOf?,List.findIdx?_eq_some_iff_getElem]
    exact ⟨hj,hname,fun k hk => by simpa using hbefore k hk⟩
  · intro k hk hsame
    by_contra hlt
    have hne := hbefore k (Nat.lt_of_not_le hlt)
    simp [hsame] at hne

namespace Generate

/-- What is found by name among the artifacts of some groups: two of them share a name exactly when
their groups share the last component, and the first of those is found. -/
structure FoundByName (gs : List ResourceGroup) (out : Output) : Prop where
  count : out.artifacts.length = gs.length
  shared : ∀ i j (hi : i < gs.length) (hj : j < gs.length) (hi' : i < out.artifacts.length)
    (hj' : j < out.artifacts.length),
      out.artifacts[i].hintName = out.artifacts[j].hintName ↔
        gs[i].lastComponent = gs[j].lastComponent
  first : ∀ i (hi : i < gs.length) (hi' : i < out.artifacts.length),
    ∃ j, ∃ hj : j < gs.length, ∃ hj' : j < out.artifacts.length,
      out.artifact? out.artifacts[i].hintName = some out.artifacts[j] ∧
        out.indexOf? out.artifacts[i].hintName = some j ∧
        gs[j].lastComponent = gs[i].lastComponent ∧
        ∀ k (hk : k < gs.length), gs[k].lastComponent = gs[i].lastComponent → j ≤ k
  distinct : (out.artifacts.map (·.hintName)).Nodup ↔ (gs.map (·.lastComponent)).Nodup
  itself : (gs.map (·.lastComponent)).Nodup →
    ∀ a ∈ out.artifacts, out.artifact? a.hintName = some a

section Names

variable {gs : List ResourceGroup} {out : Output}
  (h : out.artifacts.map (·.hintName) = gs.map fun g => nameOf g.lastComponent)
include h

theorem length_artifacts : out.artifacts.length = gs.length := by
  simpa using congrArg List.length h

theorem hintName_eq_iff (i j : Nat) (hi : i < gs.length) (hj : j < gs.length)
    (hi' : i < out.artifacts.length) (hj' : j < out.artifacts.length) :
    out.artifacts[i].hintName = out.artifacts[j].hintName ↔
      gs[i].lastComponent = gs[j].lastComponent := by
  have hname : ∀ k (hk : k < gs.length) (hk' : k < out.artifacts.length),
      out.artifacts[k].hintName = nameOf gs[k].lastComponent := by
    intro k hk hk'
    have hget := List.getElem_of_eq h (show k < (out.artifacts.map (·.hintName)).length by simpa)
    simpa using hget
  rw [hname i hi hi',hname j hj hj',nameOf_injective.eq_iff]

theorem exists_first_component (i : Nat) (hi : i < gs.length) (hi' : i < out.artifacts.length) :
    ∃ j, ∃ hj : j < gs.length, ∃ hj' : j < out.artifacts.length,
      out.artifact? out.artifacts[i].hintName = some out.artifacts[j] ∧
        out.indexOf? out.artifacts[i].hintName = some j ∧
        gs[j].lastComponent = gs[i].lastComponent ∧
        ∀ k (hk : k < gs.length), gs[k].lastComponent = gs[i].lastComponent → j ≤ k := by
  obtain ⟨j,hj',hfound,hindex,hsame,hleast⟩ := out.exists_first hi'
  have hj : j < gs.length := length_artifacts h ▸ hj'
  refine ⟨j,hj,hj',hfound,hindex,(hintName_eq_iff h j i hj hi hj' hi').mp hsame,?_⟩
  intro k hk hcomponent
  have hk' : k < out.artifacts.length := length_artifacts h ▸ hk
  exact hleast k hk' ((hintName_eq_iff h k i hk hi hk' hi').mpr hcomponent)

theorem nodup_hintNames_iff :
    (out.artifacts.map (·.hintName)).Nodup ↔ (gs.map (·.lastComponent)).Nodup := by
  have hnames : out.artifacts.map (·.hintName) = (gs.map (·.lastComponent)).map nameOf := by
    rw [h,List.map_map]
    rfl
  rw [hnames,List.nodup_map_iff nameOf_injective]

theorem artifact?_of_nodup (hnodup : (gs.map (·.lastComponent)).Nodup) :
    ∀ a ∈ out.artifacts, out.artifact? a.hintName = some a := by
  intro a ha
  obtain ⟨i,hi',rfl⟩ := List.mem_iff_getElem.mp ha
  have hi : i < gs.length := length_artifacts h ▸ hi'
  obtain ⟨j,hj,hj',hfound,-,hsame,-⟩ := exists_first_component h i hi hi'
  have hgroups : gs[j] = gs[i] :=
    List.inj_on_of_nodup_map hnodup (List.getElem_mem hj) (List.getElem_mem hi) hsame
  obtain rfl : j = i := hnodup.of_map.getElem_inj_iff.mp hgroups
  exact hfound

end Names

/-- Artifacts are found by the last components of their groups' keys, however many workers there
are. -/
theorem artifacts_found_by_last_component {job : Job} {files : List ResourceFile}
    {cancelled : Bool} {workers : Int} {out : Output}
    (hends : Ends job files cancelled workers (.ok out)) :
    FoundByName (ResourceGroup.ofAll files) out := by
  have h := hintNames_of_ends hends
  exact ⟨length_artifacts h,hintName_eq_iff h,exists_first_component h,nodup_hintNames_iff h,
    artifact?_of_nodup h⟩

def namesakes : List ResourceFile := [.ofText "b/x.resx" none,.ofText "a/x.resx" none]

theorem ofAll_namesakes : ResourceGroup.ofAll namesakes =
    [⟨"a/x",[.ofText "a/x.resx" none]⟩,⟨"b/x",[.ofText "b/x.resx" none]⟩] := by
  have hkeyed : ResourceGroup.keyed namesakes =
      [("b/x",.ofText "b/x.resx" none),("a/x",.ofText "a/x.resx" none)] := rfl
  have ha : Key.ofPath "a/x.resx" = "a/x" := by decide
  have hb : Key.ofPath "b/x.resx" = "b/x" := by decide
  rw [ResourceGroup.ofAll,hkeyed]
  simp [ResourceGroup.ofKeyed,ResourceGroup.membersOf,ResourceGroup.ofFiles?,
    ResourceGroup.sortFiles,List.eraseDups_cons,List.mergeSort,List.MergeSort.Internal.splitInTwo,
    ResourceFile.ofText,ha,hb]

theorem exists_ends_namesakes : ∃ out, Ends namingJob namesakes false 1 (.ok out) := by
  have htextless : ∀ f ∈ namesakes, f.content = .ok none := by
    simp [namesakes,ResourceFile.ofText]
  obtain ⟨out,hout⟩ := @exists_run_of_textless namingJob (by simp [namingJob]) _ htextless false
  exact ⟨out,by simpa [Ends] using hout⟩

theorem namesakes_found_by_last_component : ∃ out, Ends namingJob namesakes false 1 (.ok out) ∧
    FoundByName (ResourceGroup.ofAll namesakes) out := by
  obtain ⟨out,hends⟩ := exists_ends_namesakes
  exact ⟨out,hends,artifacts_found_by_last_component hends⟩

/-- The text of an artifact shows the key of its group first. -/
theorem exists_text_eq {job : Job} {g : ResourceGroup} {cancelled : Bool}
    {m : Artifact × List Diagnostic} (h : (group job g cancelled).result = .ok m) :
    ∃ rest, m.1.text = Text.unlines ["","// Debug info:","// key: " ++ g.key] ++ rest := by
  obtain ⟨settings,early,loaded,-,-,ha,-⟩ := (group_result_eq_ok _ _ _ _).mp h
  have hheader : ∃ rest, m.1.text = Header.render g.key g.paths settings ++ rest := by
    rcases artifact_text ha with ⟨-,htext⟩ | ⟨_,_,c,-,-,-,htext⟩
    · exact ⟨"",by rw [htext,String.append_empty]⟩
    · exact ⟨c.render,htext⟩
  obtain ⟨rest,hrest⟩ := hheader
  have hlines : Header.lines g.key g.paths settings = ["","// Debug info:","// key: " ++ g.key] ++
      ((Header.rows g.key g.paths settings).drop 1).map
        fun row => "// " ++ row.1 ++ ": " ++ row.2 := rfl
  rw [hrest,Header.render,hlines,Text.unlines_append,String.append_assoc]
  exact ⟨_,rfl⟩

/-- Of two artifacts that share a name the second one is not found. -/
theorem namesake_not_found : ∃ out, Ends namingJob namesakes false 1 (.ok out) ∧
    ¬ (out.artifacts.map (·.hintName)).Nodup ∧
    ∃ a ∈ out.artifacts, out.artifact? a.hintName ≠ some a := by
  obtain ⟨out,hends⟩ := exists_ends_namesakes
  have hnames := hintNames_of_ends hends
  rw [ofAll_namesakes] at hnames
  refine ⟨out,hends,by simp [hnames,ResourceGroup.lastComponent,Path.baseName],?_⟩
  have hrun : (run namingJob namesakes false).result = .ok out := by simpa [Ends] using hends
  have hleave : LeaveToken namesakes := by simp [LeaveToken,namesakes,ResourceFile.ofText]
  obtain ⟨made,hmade,rfl⟩ := (run_result_eq_ok hleave namingJob false out).mp hrun
  rw [ofAll_namesakes] at hmade
  cases hmade with
  | cons h₁ htail =>
    cases htail with
    | cons h₂ hnil =>
      cases hnil
      rename_i m₁ m₂
      have hfound : m₁.1.hintName = m₂.1.hintName := by
        rw [group_hintName h₁,group_hintName h₂]
        decide
      -- the names agree, but each header shows its own key
      have hne : m₁.1 ≠ m₂.1 := by
        intro he
        obtain ⟨rest₁,htext₁⟩ := exists_text_eq h₁
        obtain ⟨rest₂,htext₂⟩ := exists_text_eq h₂
        rw [he,htext₂] at htext₁
        have hchars := congrArg String.toList htext₁
        simp [Text.unlines] at hchars
      refine ⟨m₂.1,by simp,?_⟩
      rw [Output.artifact?,List.map_cons,List.find?_cons_of_pos (by simp [hfound])]
      simpa using hne

end Generate
end TypedResources
