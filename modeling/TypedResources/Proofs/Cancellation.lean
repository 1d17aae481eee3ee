import Mathlib.Data.List.Forall2
import TypedResources.Proofs.Account
import TypedResources.Proofs.Generation

/-! What cancelling in mid-run does. The host that cancels is the last one that is asked. The groups
before are as ever, the group that is being loaded is given up at its next file, and the groups
after it show their headers and report their first files. -/
namespace TypedResources

/-- The same file with a host that leaves the token alone. -/
def ResourceFile.quiet (f : ResourceFile) : ResourceFile := { f with cancels := false }

namespace Loading

/-- The file is read and has no text, or one that can be parsed. -/
def IsRead (f : ResourceFile) : Prop := (added (contribution f.content)).isSome

/-- A file that is read adds what it declares, and loading goes on under the token it leaves. -/
theorem loadFrom_cons_of_isRead {f : ResourceFile} (h : IsRead f) (merged : List Entry)
    (rest : List ResourceFile) :
    (loadFrom merged false (f :: rest)).result =
        (loadFrom (Merge.addAll merged (declarations f)) f.cancels rest).result ∧
      (loadFrom merged false (f :: rest)).cancelled =
        (loadFrom (Merge.addAll merged (declarations f)) f.cancels rest).cancelled ∧
      (loadFrom merged false (f :: rest)).asked =
        f :: (loadFrom (Merge.addAll merged (declarations f)) f.cancels rest).asked := by
  have hread : f.read false = f.content := rfl
  rw [loadFrom_cons,hread]
  unfold IsRead at h
  unfold declarations
  cases hc : contribution f.content with
  | entries found => exact ⟨rfl,rfl,rfl⟩
  | nothing => exact ⟨rfl,rfl,rfl⟩
  | unusable => simp [hc,added] at h
  | failed failure => simp [hc,added] at h

/-- A file that cannot be used ends loading; how it ends does not depend on the token. -/
theorem loadFrom_cons_of_not_isRead {f : ResourceFile} (h : ¬ IsRead f) (merged : List Entry)
    (rest : List ResourceFile) :
    (loadFrom merged false (f :: rest)).result = (loadFrom merged false (f.quiet :: rest)).result ∧
      (loadFrom merged false (f :: rest)).cancelled = f.cancels ∧
      (loadFrom merged false (f :: rest)).asked = [f] := by
  have hread : f.read false = f.content := rfl
  have hquiet : f.quiet.read false = f.content := rfl
  rw [loadFrom_cons,loadFrom_cons_result,hread,hquiet]
  unfold IsRead at h
  cases hc : contribution f.content with
  | entries found => simp [hc,added] at h
  | nothing => simp [hc,added] at h
  | unusable => exact ⟨rfl,rfl,rfl⟩
  | failed failure => exact ⟨rfl,rfl,rfl⟩

theorem first_mem_asked (merged : List Entry) (f : ResourceFile) (rest : List ResourceFile) :
    f ∈ (loadFrom merged false (f :: rest)).asked := by
  by_cases hread : IsRead f
  · rw [(loadFrom_cons_of_isRead hread merged rest).2.2]
    exact List.mem_cons_self
  · rw [(loadFrom_cons_of_not_isRead hread merged rest).2.2]
    exact List.mem_singleton_self f

/-- Under a cancelled token no host is asked, and the first file ends loading. -/
theorem loadFrom_of_cancelled (merged : List Entry) (files : List ResourceFile) :
    (loadFrom merged true files).result = (match files with
      | [] => .ok ⟨some merged,[]⟩
      | first :: _ => .ok (givenUp first.path)) ∧
      (loadFrom merged true files).cancelled = true ∧ (loadFrom merged true files).asked = [] := by
  cases files with
  | nil => exact ⟨rfl,rfl,rfl⟩
  | cons first rest => exact ⟨rfl,rfl,rfl⟩

/-- Files that are all read, under hosts that leave the token alone. -/
def Passed (files : List ResourceFile) : Prop := ∀ f ∈ files, f.cancels = false ∧ IsRead f

theorem loadFrom_append {earlier : List ResourceFile} (h : Passed earlier) (merged : List Entry)
    (files : List ResourceFile) :
    (loadFrom merged false (earlier ++ files)).result =
        (loadFrom (Merge.addAll merged (earlier.flatMap declarations)) false files).result ∧
      (loadFrom merged false (earlier ++ files)).cancelled =
        (loadFrom (Merge.addAll merged (earlier.flatMap declarations)) false files).cancelled ∧
      (loadFrom merged false (earlier ++ files)).asked = earlier ++
        (loadFrom (Merge.addAll merged (earlier.flatMap declarations)) false files).asked := by
  induction earlier generalizing merged with
  | nil => exact ⟨rfl,rfl,rfl⟩
  | cons f rest ih =>
    obtain ⟨hcancels,hread⟩ := h f (by simp)
    obtain ⟨hresult,htoken,hasked⟩ := loadFrom_cons_of_isRead hread merged (rest ++ files)
    have hrest := ih (fun x hx => h x (by simp [hx])) (Merge.addAll merged (declarations f))
    rw [List.cons_append,hresult,htoken,hasked,hcancels,List.flatMap_cons,Merge.addAll_append]
    exact ⟨hrest.1,hrest.2.1,by rw [hrest.2.2,List.cons_append]⟩

/-- As long as the token stays as it is, the files that are asked are some of those given, and none
of them cancels. -/
theorem asked_of_not_cancelled {merged : List Entry} {files : List ResourceFile}
    (h : (loadFrom merged false files).cancelled = false) :
    (loadFrom merged false files).asked.Sublist files ∧
      ∀ x ∈ (loadFrom merged false files).asked, x.cancels = false := by
  induction files generalizing merged with
  | nil => exact ⟨by simp [loadFrom_nil],by simp [loadFrom_nil]⟩
  | cons f rest ih =>
    by_cases hread : IsRead f
    · obtain ⟨-,htoken,hasked⟩ := loadFrom_cons_of_isRead hread merged rest
      have hcancels : f.cancels = false := by
        by_contra hc
        rw [htoken,Bool.eq_true_of_not_eq_false hc,(loadFrom_of_cancelled _ _).2.1] at h
        simp at h
      rw [htoken,hcancels] at h
      obtain ⟨hsub,hquiet⟩ := ih h
      rw [hasked,hcancels]
      exact ⟨hsub.cons_cons f,List.forall_mem_cons.mpr ⟨hcancels,hquiet⟩⟩
    · obtain ⟨-,htoken,hasked⟩ := loadFrom_cons_of_not_isRead hread merged rest
      rw [hasked]
      exact ⟨by simp,by simpa [htoken] using h⟩

/-- Loading that leaves the token cancelled passes some files and comes to one that cancels. -/
theorem exists_cancelling {merged : List Entry} {files : List ResourceFile}
    (h : (loadFrom merged false files).cancelled = true) :
    ∃ earlier f later, files = earlier ++ f :: later ∧ Passed earlier ∧ f.cancels = true := by
  induction files generalizing merged with
  | nil => simp [loadFrom_nil] at h
  | cons f rest ih =>
    cases hcancels : f.cancels with
    | true => exact ⟨[],f,rest,rfl,by simp [Passed],hcancels⟩
    | false =>
      by_cases hread : IsRead f
      · rw [(loadFrom_cons_of_isRead hread merged rest).2.1,hcancels] at h
        obtain ⟨earlier,x,later,rfl,hpassed,hx⟩ := ih h
        refine ⟨f :: earlier,x,later,rfl,?_,hx⟩
        intro y hy
        rcases List.mem_cons.mp hy with rfl | hy
        · exact ⟨hcancels,hread⟩
        · exact hpassed y hy
      · rw [(loadFrom_cons_of_not_isRead hread merged rest).2.1,hcancels] at h
        simp at h

section Stop

variable {earlier later : List ResourceFile} {f : ResourceFile} (hpassed : Passed earlier)
  (hf : f.cancels = true) (merged : List Entry)
include hpassed hf

/-- The file that cancels is the last one whose host is asked. -/
theorem asked_of_cancelling :
    (loadFrom merged false (earlier ++ f :: later)).asked = earlier ++ [f] := by
  rw [(loadFrom_append hpassed _ _).2.2]
  congr 1
  by_cases hread : IsRead f
  · rw [(loadFrom_cons_of_isRead hread _ _).2.2,hf,(loadFrom_of_cancelled _ _).2.2]
  · exact (loadFrom_cons_of_not_isRead hread _ _).2.2

/-- With no file to follow, or after a fault, cancelling comes too late to change the result. -/
theorem result_eq_quiet (h : later = [] ∨ ¬ IsRead f) :
    (loadFrom merged false (earlier ++ f :: later)).result =
      (loadFrom merged false (earlier ++ f.quiet :: later)).result := by
  rw [(loadFrom_append hpassed _ _).1,(loadFrom_append hpassed _ _).1]
  by_cases hread : IsRead f
  · obtain rfl := h.resolve_right (not_not_intro hread)
    rw [(loadFrom_cons_of_isRead hread _ _).1,hf,(loadFrom_of_cancelled _ _).1,
      (loadFrom_cons_of_isRead (show IsRead f.quiet from hread) _ _).1]
    rfl
  · exact (loadFrom_cons_of_not_isRead hread _ _).1

/-- A file that is read and cancels leaves the next file to end loading. -/
theorem result_eq_givenUp (hread : IsRead f) (next : ResourceFile) (rest : List ResourceFile) :
    (loadFrom merged false (earlier ++ f :: next :: rest)).result = .ok (givenUp next.path) := by
  rw [(loadFrom_append hpassed _ _).1,(loadFrom_cons_of_isRead hread _ _).1,hf,
    (loadFrom_of_cancelled _ _).1]

end Stop

end Loading

/-- Settings depend on a group's key and paths only. -/
theorem Settings.resolve_congr {g h : ResourceGroup} (hkey : g.key = h.key)
    (hpaths : g.paths = h.paths) (current : String) (options : Options)
    (assemblyName : Option Label) :
    resolve current options assemblyName g = resolve current options assemblyName h := by
  have hchoices : ∀ choices,
      ofChoices current assemblyName g choices = ofChoices current assemblyName h choices := by
    intro choices
    unfold ofChoices
    rw [hkey]
    cases hg : g.files <;> cases hh : h.files <;> simp_all [ResourceGroup.paths]
  have hnames : ∀ settings reporter,
      reportNames g settings reporter = reportNames h settings reporter := by
    intro settings reporter
    unfold reportNames
    cases hg : g.files <;> cases hh : h.files <;> simp_all [ResourceGroup.paths]
  simp only [resolve,resolveWith,hpaths,hchoices,hnames]

namespace Generate

/-- The artifact is the header alone, and the reports are those on the settings and then one on the
file at which loading ended. -/
def CutShort (job : Job) (g : ResourceGroup) (path : String) (m : Artifact × List Diagnostic) :
    Prop :=
  ∃ settings early, Settings.resolve job.current job.options job.assemblyName g =
      .ok (settings,early) ∧
    m = (⟨artifactName g.key,Header.render g.key g.paths settings⟩,
      early ++ [.unreadableFile path]) ∧
    ¬ Diagnostic.Holds "RESXG001" early

theorem cutShort_of_givenUp {job : Job} {g : ResourceGroup} {cancelled : Bool}
    {m : Artifact × List Diagnostic} (h : (group job g cancelled).result = .ok m) {path : String}
    (hload : (Loading.load g cancelled).result = .ok (Loading.givenUp path)) :
    CutShort job g path m := by
  obtain ⟨settings,early,loaded,hs,hl,ha,hd⟩ := (group_result_eq_ok _ _ _ _).mp h
  obtain rfl := Except.ok.inj (hload.symm.trans hl)
  have htext := Except.ok.inj ((artifact_none job g settings).symm.trans ha)
  obtain ⟨first,-,hearly⟩ := account_of_resolve hs
  refine ⟨settings,early,hs,?_,?_⟩
  · refine Prod.ext ?_ hd
    rw [← htext,artifactText,Option.map_none,Option.getD_none,String.append_empty]
  · rw [hearly,(Diagnostic.holds_account _ _ _ _).2.2]
    simp

theorem artifact_congr {g h : ResourceGroup} (hkey : g.key = h.key) (hpaths : g.paths = h.paths)
    (job : Job) (settings : Settings) (entries : Option (List Entry)) :
    artifact job g settings entries = artifact job h settings entries := by
  unfold artifact artifactText
  rw [hkey,hpaths]

theorem group_eq_ok_congr {g h : ResourceGroup} (hkey : g.key = h.key)
    (hpaths : g.paths = h.paths) {cancelled : Bool}
    (hload : (Loading.load g cancelled).result = (Loading.load h cancelled).result) {job : Job}
    {m : Artifact × List Diagnostic} (hm : (group job g cancelled).result = .ok m) :
    (group job h cancelled).result = .ok m := by
  obtain ⟨settings,early,loaded,hs,hl,ha,hd⟩ := (group_result_eq_ok _ _ _ _).mp hm
  rw [Settings.resolve_congr hkey hpaths] at hs
  rw [hload] at hl
  rw [artifact_congr hkey hpaths] at ha
  exact (group_result_eq_ok _ _ _ _).mpr ⟨settings,early,loaded,hs,hl,ha,hd⟩

/-- A group asks the files that loading asks, and leaves the token as loading does. -/
theorem group_token_of_ok {job : Job} {g : ResourceGroup} {cancelled : Bool}
    {m : Artifact × List Diagnostic} (h : (group job g cancelled).result = .ok m) :
    (group job g cancelled).cancelled = (Loading.load g cancelled).cancelled ∧
      (group job g cancelled).asked = (Loading.load g cancelled).asked := by
  obtain ⟨settings,early,-,hs,-,-,-⟩ := (group_result_eq_ok _ _ _ _).mp h
  exact (group_of_settings hs cancelled).2

/-- The group was reached only after the run was cancelled: its first file is reported. -/
def Skipped (job : Job) (g : ResourceGroup) (m : Artifact × List Diagnostic) : Prop :=
  ∃ first ∈ g.files.head?, CutShort job g first.path m

/-- What becomes of the group in which a file cancels the run. With no file to follow, or after a
fault, the group is as if its host had left the token alone; else its next file is reported. -/
structure Interrupted (job : Job) (g : ResourceGroup) (earlier : List ResourceFile)
    (f : ResourceFile) (later : List ResourceFile) (m : Artifact × List Diagnostic) : Prop where
  unharmed : later = [] ∨ ¬ Loading.IsRead f →
    (group job ⟨g.key,earlier ++ f.quiet :: later⟩ false).result = .ok m
  cutShort : ∀ next rest, later = next :: rest → Loading.IsRead f → CutShort job g next.path m

section Group

variable {job : Job} {g : ResourceGroup} (hsorted : ResourceGroup.sortFiles g.files = g.files)
  {m : Artifact × List Diagnostic}
include hsorted

theorem load_eq_loadFrom (cancelled : Bool) :
    Loading.load g cancelled = Loading.loadFrom [] cancelled g.files := by
  rw [Loading.load,Loading.loadWith,hsorted,Loading.loadFrom]

theorem group_skipped (hfiles : g.files ≠ []) (h : (group job g true).result = .ok m) :
    Skipped job g m ∧ (group job g true).cancelled = true ∧ (group job g true).asked = [] := by
  obtain ⟨htoken,hasked⟩ := group_token_of_ok h
  obtain ⟨hresult,hcancelled,hnone⟩ := Loading.loadFrom_of_cancelled [] g.files
  rw [← load_eq_loadFrom hsorted] at hresult hcancelled hnone
  refine ⟨?_,htoken.trans hcancelled,hasked.trans hnone⟩
  cases hg : g.files with
  | nil => exact absurd hg hfiles
  | cons first rest =>
    rw [hg] at hresult
    exact ⟨first,by simp [hg],cutShort_of_givenUp h hresult⟩

theorem group_interrupted (h : (group job g false).result = .ok m)
    (hcancelled : (group job g false).cancelled = true) :
    ∃ earlier f later, g.files = earlier ++ f :: later ∧ (∀ x ∈ earlier, x.cancels = false) ∧
      f.cancels = true ∧ (group job g false).asked = earlier ++ [f] ∧
      Interrupted job g earlier f later m := by
  obtain ⟨htoken,hasked⟩ := group_token_of_ok h
  rw [htoken,load_eq_loadFrom hsorted] at hcancelled
  obtain ⟨earlier,f,later,hfiles,hpassed,hf⟩ := Loading.exists_cancelling hcancelled
  refine ⟨earlier,f,later,hfiles,fun x hx => (hpassed x hx).1,hf,?_,?_,?_⟩
  · rw [hasked,load_eq_loadFrom hsorted,hfiles,Loading.asked_of_cancelling hpassed hf]
  · intro hlate
    have hkey : g.key = (⟨g.key,earlier ++ f.quiet :: later⟩ : ResourceGroup).key := rfl
    have hpaths : g.paths = (⟨g.key,earlier ++ f.quiet :: later⟩ : ResourceGroup).paths := by
      simp [ResourceGroup.paths,hfiles,ResourceFile.quiet]
    have hquiet : ResourceGroup.sortFiles (earlier ++ f.quiet :: later) =
        earlier ++ f.quiet :: later := ResourceGroup.sortFiles_eq_of_paths hsorted hpaths
    refine group_eq_ok_congr hkey hpaths ?_ h
    rw [load_eq_loadFrom hsorted,load_eq_loadFrom hquiet,hfiles]
    exact Loading.result_eq_quiet hpassed hf [] hlate
  · rintro next rest rfl hread
    refine cutShort_of_givenUp h ?_
    rw [load_eq_loadFrom hsorted,hfiles]
    exact Loading.result_eq_givenUp hpassed hf [] hread next rest

end Group

/-- Groups made while no host cancels: each is as it is alone. -/
structure Undisturbed (job : Job) (gs : List ResourceGroup)
    (made : List (Artifact × List Diagnostic)) (asked : List ResourceFile) : Prop where
  alone : List.Forall₂ (fun g m => (group job g false).result = .ok m) gs made
  given : asked.Sublist (gs.flatMap (·.files))
  quiet : ∀ x ∈ asked, x.cancels = false

/-- Groups made while a host cancels. It is the last host that is asked, and none before it cancels;
the groups before its own are as they are alone, and those after it are skipped. -/
structure Stopped (job : Job) (before : List ResourceGroup) (g : ResourceGroup)
    (after : List ResourceGroup) (earlier : List ResourceFile) (f : ResourceFile)
    (later : List ResourceFile) (made : List (Artifact × List Diagnostic))
    (asked : List ResourceFile) : Prop where
  files : g.files = earlier ++ f :: later
  quiet : ∀ x ∈ earlier, x.cancels = false
  cancels : f.cancels = true
  parts : ∃ done askedBefore m skipped, Undisturbed job before done askedBefore ∧
    Interrupted job g earlier f later m ∧ List.Forall₂ (Skipped job) after skipped ∧
    made = done ++ m :: skipped ∧ asked = askedBefore ++ earlier ++ [f]

section Groups

variable {job : Job} {gs : List ResourceGroup}

theorem groups_skipped (hsorted : ∀ g ∈ gs, ResourceGroup.sortFiles g.files = g.files)
    (hfiles : ∀ g ∈ gs, g.files ≠ []) {made : List (Artifact × List Diagnostic)}
    (h : (groups job true gs).result = .ok made) :
    List.Forall₂ (Skipped job) gs made ∧ (groups job true gs).asked = [] := by
  induction gs generalizing made with
  | nil =>
    obtain rfl := Except.ok.inj h
    exact ⟨.nil,rfl⟩
  | cons g rest ih =>
    obtain ⟨m,ms,rfl,hm,hms,-,hasked⟩ := groups_cons_of_ok h
    obtain ⟨hskipped,htoken,hnone⟩ := group_skipped (hsorted g (by simp)) (hfiles g (by simp)) hm
    rw [htoken] at hms hasked
    obtain ⟨hrest,hnone'⟩ := ih (fun x hx => hsorted x (by simp [hx]))
      (fun x hx => hfiles x (by simp [hx])) hms
    exact ⟨.cons hskipped hrest,by rw [hasked,hnone,hnone',List.append_nil]⟩

theorem Undisturbed.cons {g : ResourceGroup} {m : Artifact × List Diagnostic}
    (hsorted : ResourceGroup.sortFiles g.files = g.files) (hm : (group job g false).result = .ok m)
    (htoken : (group job g false).cancelled = false) {made : List (Artifact × List Diagnostic)}
    {asked : List ResourceFile} (h : Undisturbed job gs made asked) :
    Undisturbed job (g :: gs) (m :: made) ((group job g false).asked ++ asked) := by
  obtain ⟨hcancelled,hasked⟩ := group_token_of_ok hm
  rw [hcancelled,load_eq_loadFrom hsorted] at htoken
  obtain ⟨hsub,hquiet⟩ := Loading.asked_of_not_cancelled htoken
  rw [hasked,load_eq_loadFrom hsorted]
  refine ⟨.cons hm h.alone,?_,?_⟩
  · rw [List.flatMap_cons]
    exact hsub.append h.given
  · exact List.forall_mem_append.mpr ⟨hquiet,h.quiet⟩

theorem undisturbed_nil (job : Job) : Undisturbed job [] [] [] := ⟨.nil,by simp,by simp⟩

/-- Under an uncancelled token either no host cancels or one of them stops the run. -/
theorem groups_course (hsorted : ∀ g ∈ gs, ResourceGroup.sortFiles g.files = g.files)
    (hfiles : ∀ g ∈ gs, g.files ≠ []) {made : List (Artifact × List Diagnostic)}
    (h : (groups job false gs).result = .ok made) :
    Undisturbed job gs made (groups job false gs).asked ∨
    ∃ before g after earlier f later, gs = before ++ g :: after ∧
      Stopped job before g after earlier f later made (groups job false gs).asked := by
  induction gs generalizing made with
  | nil =>
    obtain rfl := Except.ok.inj h
    exact Or.inl (undisturbed_nil job)
  | cons g rest ih =>
    obtain ⟨m,ms,rfl,hm,hms,-,hasked⟩ := groups_cons_of_ok h
    have hsortedRest : ∀ x ∈ rest, ResourceGroup.sortFiles x.files = x.files :=
      fun x hx => hsorted x (by simp [hx])
    have hfilesRest : ∀ x ∈ rest, x.files ≠ [] := fun x hx => hfiles x (by simp [hx])
    rw [hasked]
    cases htoken : (group job g false).cancelled with
    | true =>
      -- this is the group in which a host cancels
      obtain ⟨earlier,f,later,hsplit,hquiet,hf,hhere,hinterrupted⟩ :=
        group_interrupted (hsorted g (by simp)) hm htoken
      rw [htoken] at hms
      obtain ⟨hskipped,hnone⟩ := groups_skipped hsortedRest hfilesRest hms
      refine Or.inr ⟨[],g,rest,earlier,f,later,rfl,hsplit,hquiet,hf,[],[],m,ms,undisturbed_nil job,
        hinterrupted,hskipped,rfl,?_⟩
      rw [hnone,hhere,List.append_nil,List.nil_append]
    | false =>
      rw [htoken] at hms
      rcases ih hsortedRest hfilesRest hms with hrest | ⟨before,x,after,earlier,f,later,rfl,hstop⟩
      · exact Or.inl (hrest.cons (hsorted g (by simp)) hm htoken)
      · obtain ⟨done,askedBefore,y,skipped,hdone,hhere,hskipped,hmade,hstopped⟩ := hstop.parts
        have hdone' := hdone.cons (hsorted g (by simp)) hm htoken
        refine Or.inr ⟨g :: before,x,after,earlier,f,later,rfl,hstop.files,hstop.quiet,
          hstop.cancels,m :: done,_,y,skipped,hdone',hhere,hskipped,?_,?_⟩
        · rw [hmade,List.cons_append]
        · rw [hstopped]
          simp only [List.append_assoc]

end Groups

/-- A run that one of its hosts cancels, or that begins under a cancelled token. -/
theorem run_stops_at_cancellation {job : Job} {files : List ResourceFile} {cancelled : Bool}
    {out : Output} (hrun : (run job files cancelled).result = .ok out) :
    ∃ made, out = ⟨made.map (·.1),made.flatMap (·.2)⟩ ∧
      (cancelled = true → (run job files cancelled).asked = [] ∧
        List.Forall₂ (Skipped job) (ResourceGroup.ofAll files) made) ∧
      (cancelled = false →
        Undisturbed job (ResourceGroup.ofAll files) made (run job files cancelled).asked ∨
        ∃ before g after earlier f later, ResourceGroup.ofAll files = before ++ g :: after ∧
          Stopped job before g after earlier f later made (run job files cancelled).asked) := by
  have hsorted : ∀ g ∈ ResourceGroup.ofAll files, ResourceGroup.sortFiles g.files = g.files :=
    fun _ => ResourceGroup.sortFiles_files
  have hfiles : ∀ g ∈ ResourceGroup.ofAll files, g.files ≠ [] := fun _ => ResourceGroup.files_ne_nil
  have hasked := run_asked job files cancelled
  rw [run_result,Except.map_eq_ok_iff] at hrun
  obtain ⟨made,hmade,rfl⟩ := hrun
  refine ⟨made,gather_eq made,?_,?_⟩
  · rintro rfl
    rw [hasked]
    exact (groups_skipped hsorted hfiles hmade).symm
  · rintro rfl
    rw [hasked]
    exact groups_course hsorted hfiles hmade

/-- Two groups; the first file of the first one cancels. -/
def cancellingFiles : List ResourceFile :=
  [.ofText "b.resx" none,.ofText "a.fr.resx" none,⟨"a.resx",true,.ok none⟩]

theorem ofAll_cancellingFiles : ResourceGroup.ofAll cancellingFiles =
    [⟨"a",[⟨"a.resx",true,.ok none⟩,.ofText "a.fr.resx" none]⟩,
      ⟨"b",[.ofText "b.resx" none]⟩] := by
  have hkeyed : ResourceGroup.keyed cancellingFiles = [("b",.ofText "b.resx" none),
      ("a",.ofText "a.fr.resx" none),("a",⟨"a.resx",true,.ok none⟩)] := rfl
  have horder : Key.orderedBefore "a.fr.resx" "a.resx" = false := by decide
  have ha : Key.ofPath "a.resx" = "a" := by decide
  have hb : Key.ofPath "b.resx" = "b" := by decide
  rw [ResourceGroup.ofAll,hkeyed]
  simp [ResourceGroup.ofKeyed,ResourceGroup.membersOf,ResourceGroup.ofFiles?,
    ResourceGroup.sortFiles,List.eraseDups_cons,List.mergeSort,List.MergeSort.Internal.splitInTwo,
    ResourceFile.ofText,horder,ha,hb]

theorem run_stops_in_cancellingFiles :
    ∃ out, (run namingJob cancellingFiles false).result = .ok out ∧
      ∃ made before g after earlier f later,
        ResourceGroup.ofAll cancellingFiles = before ++ g :: after ∧
          Stopped namingJob before g after earlier f later made
            (run namingJob cancellingFiles false).asked := by
  have htextless : ∀ f ∈ cancellingFiles, f.content = .ok none := by
    simp [cancellingFiles,ResourceFile.ofText]
  obtain ⟨out,hout⟩ := @exists_run_of_textless namingJob (by simp [namingJob]) _ htextless false
  obtain ⟨made,-,-,hcourse⟩ := run_stops_at_cancellation hout
  refine ⟨out,hout,made,(hcourse rfl).resolve_left ?_⟩
  intro hundisturbed
  -- the first file is asked and cancels
  have hasked : (⟨"a.resx",true,.ok none⟩ : ResourceFile) ∈
      (run namingJob cancellingFiles false).asked := by
    rw [run_result,Except.map_eq_ok_iff,ofAll_cancellingFiles] at hout
    obtain ⟨all,hall,-⟩ := hout
    obtain ⟨m,ms,-,hm,-,-,hgroups⟩ := groups_cons_of_ok hall
    have hsorted := ResourceGroup.sortFiles_files
      (show _ ∈ ResourceGroup.ofAll cancellingFiles by
        rw [ofAll_cancellingFiles]
        exact List.mem_cons_self)
    rw [run_asked,ofAll_cancellingFiles,hgroups,
      (group_token_of_ok hm).2,load_eq_loadFrom hsorted]
    exact List.mem_append_left _ (Loading.first_mem_asked [] _ _)
  exact absurd (hundisturbed.quiet _ hasked) (by simp)

end Generate
end TypedResources
