import QuantNet.Output.Session
import QuantNet.Proofs.BuildDigest

/-!
# Files in any order

All places of an output share one file set, and different places with different extensions can stand for
one path. Still no request ever takes back what another one did: a request opens a place, or writes a file
whose path is free or holds the same lines, or changes nothing (`Session.step_cases`). So a file keeps its
lines for the rest of the run.

What is there after a write says nothing about when it was written (`FileSet.write_eq_ok_iff`). Hence two
writes can be exchanged (`FileSet.write_comm`), and so can all writes of a run. Places that are opened between
the writes might as well have been opened before them, because a place that is known stays known
(`Session.writesSucceed_opened`).
-/

namespace QuantNet

/-! ### Single writes -/

namespace FileSet

/-- A write succeeds below the root if its path is free or holds the same lines, and then the lines are there
and nothing else has changed. -/
theorem write_eq_ok_iff {files written : FileSet} {place : Place} {extension : String} {lines : List String} :
    files.write place extension lines = .ok written ↔
      place ≠ [] ∧ (∀ stored, files.get? (place.text ++ extension) = some stored → stored = lines) ∧
        ∀ path, written.get? path = if path = place.text ++ extension then some lines else files.get? path := by
  have hsame : ∀ t : FileSet, (∀ path, t.get? path = if path = place.text ++ extension then some lines else
      files.get? path) → ((.ok t : Except OutputError FileSet) = .ok written ↔
        ∀ path, written.get? path = if path = place.text ++ extension then some lines else files.get? path) := by
    intro t ht
    rw [Except.ok.injEq]
    exact ⟨fun h => h ▸ ht, fun h => Table.eq_of_get?_eq fun path => by rw [ht, h]⟩
  unfold FileSet.write
  by_cases hroot : place = []
  · simp [hroot]
  · rw [if_neg hroot]
    dsimp only
    cases hstored : files.get? (place.text ++ extension) with
    | none =>
      rw [hsame _ fun path => Table.get?_insert ..]
      simp [hroot]
    | some stored =>
      by_cases hlines : stored = lines
      · subst hlines
        have hkept : ∀ path, files.get? path =
            if path = place.text ++ extension then some stored else files.get? path := by
          intro path
          split_ifs with hpath
          · rw [hpath, hstored]
          · rfl
        dsimp only
        rw [if_pos rfl, hsame _ hkept]
        simp [hroot]
      · simp [hlines]

/-- A write is accepted below the root exactly if its path is free or holds the same lines. -/
theorem exists_write_iff {files : FileSet} {place : Place} {extension : String} {lines : List String} :
    (∃ written, files.write place extension lines = .ok written) ↔
      place ≠ [] ∧ (files.get? (place.text ++ extension) = none ∨
        files.get? (place.text ++ extension) = some lines) := by
  constructor
  · rintro ⟨written, hwritten⟩
    obtain ⟨hplace, hfree, -⟩ := write_eq_ok_iff.mp hwritten
    refine ⟨hplace, ?_⟩
    cases hstored : files.get? (place.text ++ extension) with
    | none => exact Or.inl rfl
    | some stored => exact Or.inr (congrArg some (hfree stored hstored))
  · rintro ⟨hplace, hfree⟩
    refine ⟨files.insert (place.text ++ extension) lines,
      write_eq_ok_iff.mpr ⟨hplace, fun stored hstored => ?_, fun path => Table.get?_insert ..⟩⟩
    rcases hfree with hnone | hsome
    · cases hnone.symm.trans hstored
    · exact Option.some.inj (hstored.symm.trans hsome)

/-- After a write a file is there exactly if it was there before or it is the one that was written. -/
theorem get?_of_write {files written : FileSet} {place : Place} {extension : String} {lines : List String}
    (h : files.write place extension lines = .ok written) (path : String) (others : List String) :
    written.get? path = some others ↔
      files.get? path = some others ∨ path = place.text ++ extension ∧ others = lines := by
  obtain ⟨-, hfree, hwritten⟩ := write_eq_ok_iff.mp h
  rw [hwritten]
  split_ifs with hpath
  · rw [Option.some.injEq]
    constructor
    · exact fun hlines => Or.inr ⟨hpath, hlines.symm⟩
    · rintro (hothers | ⟨-, rfl⟩)
      · exact (hfree others (hpath ▸ hothers)).symm
      · rfl
  · simp only [hpath, false_and, or_false]

/-- Of two writes that both succeed, either can be the first. -/
theorem write_comm {files between written : FileSet} {place place' : Place} {extension extension' : String}
    {lines lines' : List String} (h : files.write place extension lines = .ok between)
    (h' : between.write place' extension' lines' = .ok written) :
    ∃ other, files.write place' extension' lines' = .ok other ∧ other.write place extension lines = .ok written := by
  obtain ⟨hplace, hfree, hbetween⟩ := write_eq_ok_iff.mp h
  obtain ⟨hplace', hfree', hwritten⟩ := write_eq_ok_iff.mp h'
  -- if both have one path, the second one found the lines of the first
  have hagree : place.text ++ extension = place'.text ++ extension' → lines = lines' := by
    intro hpath
    refine hfree' lines ?_
    rw [hbetween, if_pos hpath.symm]
  have hfirst : files.write place' extension' lines' = .ok (files.insert (place'.text ++ extension') lines') := by
    refine write_eq_ok_iff.mpr ⟨hplace', fun stored hstored => ?_, fun path => Table.get?_insert ..⟩
    by_cases hpath : place.text ++ extension = place'.text ++ extension'
    · exact (hfree stored (hpath ▸ hstored)).trans (hagree hpath)
    · exact hfree' stored (by rw [hbetween, if_neg (Ne.symm hpath), hstored])
  refine ⟨_, hfirst, write_eq_ok_iff.mpr ⟨hplace, fun stored hstored => ?_, fun path => ?_⟩⟩
  · rw [Table.get?_insert] at hstored
    split_ifs at hstored with hpath
    · rw [hagree hpath]
      exact (Option.some.inj hstored).symm
    · exact hfree stored hstored
  · rw [hwritten, hbetween, Table.get?_insert]
    split_ifs with hpath' hpath
    · rw [hagree (hpath.symm.trans hpath')]
    all_goals rfl

end FileSet

/-! ### Sessions -/

/-- Whether a request writes a file. -/
def Request.isWrite : Request → Bool
  | sub _ _ => false
  | write _ _ _ => true

namespace Session

/-- All writes among the requests succeed. -/
def WritesSucceed {σ : Type} (store : Store σ) : Session σ → List Request → Prop
  | _, [] => True
  | s, r :: rest => (r.isWrite = true → (s.step store r).2 = .ok ()) ∧ (s.step store r).1.WritesSucceed store rest

variable {s : Session FileSet}

/-- What a request does: it opens a place, it writes a file, or it is refused and changes nothing. -/
theorem step_cases (s : Session FileSet) (r : Request) :
    (∃ handle name place, r = .sub handle name ∧ (s.place handle).sub name = .ok place ∧
      s.step Store.memory r = ({ s with places := s.places ++ [place] }, .ok ())) ∨
    (∃ handle extension lines written, r = .write handle extension lines ∧
      s.target.write (s.place handle) extension lines = .ok written ∧
      s.step Store.memory r = ({ s with target := written }, .ok ())) ∨
    ∃ cause, s.step Store.memory r = (s, .error cause) := by
  cases r with
  | sub handle name =>
    cases hplace : (s.place handle).sub name with
    | ok place => exact Or.inl ⟨handle, name, place, rfl, hplace, by simp only [step, hplace]⟩
    | error cause => exact Or.inr (Or.inr ⟨cause, by simp only [step, hplace]⟩)
  | write handle extension lines =>
    cases hwrite : s.target.write (s.place handle) extension lines with
    | ok written => exact Or.inr (Or.inl ⟨_, _, _, written, rfl, hwrite, by simp only [step, Store.memory, hwrite]⟩)
    | error cause => exact Or.inr (Or.inr ⟨cause, by simp only [step, Store.memory, hwrite]⟩)

theorem step_write_eq_ok_iff {handle : Nat} {extension : String} {lines : List String} :
    (s.step Store.memory (.write handle extension lines)).2 = .ok () ↔
      ∃ written, s.target.write (s.place handle) extension lines = .ok written := by
  cases hwrite : s.target.write (s.place handle) extension lines with
  | ok written => simp [step, Store.memory, hwrite]
  | error cause => simp [step, Store.memory, hwrite]

theorem step_write {handle : Nat} {extension : String} {lines : List String} {written : FileSet}
    (h : s.target.write (s.place handle) extension lines = .ok written) :
    s.step Store.memory (.write handle extension lines) = (⟨s.places, written⟩, .ok ()) := by
  simp only [step, Store.memory, h]

/-- A request keeps all files. -/
theorem kept_step (s : Session FileSet) (r : Request) : FileSet.Kept s.target (s.step Store.memory r).1.target := by
  rcases s.step_cases r with ⟨_, _, _, _, _, hstep⟩ | ⟨_, _, _, _, _, hwrite, hstep⟩ | ⟨_, hstep⟩ <;> rw [hstep]
  · exact fun _ _ hlines => hlines
  · exact (FileSet.of_write hwrite).1
  · exact fun _ _ hlines => hlines

/-- A run keeps all files. -/
theorem kept_run (s : Session FileSet) (requests : List Request) :
    FileSet.Kept s.target (s.run Store.memory requests).target := by
  induction requests generalizing s with
  | nil => exact fun _ _ hlines => hlines
  | cons r rest ih => exact (s.kept_step r).trans (ih _)

/-! ### Known places -/

/-- The root is known first, and every other known place is below it. -/
def IsRooted (s : Session FileSet) : Prop := ∃ others, s.places = Place.root :: others ∧ ∀ place ∈ others, place ≠ []

theorem isRooted_start (files : FileSet) : (start files).IsRooted := ⟨[], rfl, List.forall_mem_nil _⟩

theorem IsRooted.step (h : s.IsRooted) (r : Request) : (s.step Store.memory r).1.IsRooted := by
  rcases s.step_cases r with ⟨_, name, place, _, hplace, hstep⟩ | ⟨_, _, _, _, _, _, hstep⟩ | ⟨_, hstep⟩ <;> rw [hstep]
  · obtain ⟨others, hplaces, hbelow⟩ := h
    obtain ⟨-, rfl⟩ := Outcome.ite_eq_ok_iff.mp hplace
    refine ⟨others ++ [_], by rw [hplaces, List.cons_append], ?_⟩
    exact List.forall_mem_append.mpr ⟨hbelow, List.forall_mem_singleton.mpr (List.concat_ne_nil _ _)⟩
  · exact h
  · exact h

theorem IsRooted.run (h : s.IsRooted) (requests : List Request) : (s.run Store.memory requests).IsRooted := by
  induction requests generalizing s with
  | nil => exact h
  | cons r rest ih => exact ih (h.step r)

theorem IsRooted.place_zero (h : s.IsRooted) : s.place 0 = [] := by
  obtain ⟨others, hplaces, -⟩ := h
  rw [place, hplaces]
  rfl

theorem IsRooted.place_ne_nil (h : s.IsRooted) {handle : Nat} (hne : handle ≠ 0) (hlt : handle < s.places.length) :
    s.place handle ≠ [] := by
  obtain ⟨others, hplaces, hbelow⟩ := h
  obtain ⟨i, rfl⟩ := Nat.exists_eq_succ_of_ne_zero hne
  rw [hplaces, List.length_cons, Nat.succ_lt_succ_iff] at hlt
  rw [place, hplaces, List.getD_cons_succ, List.getD_eq_getElem?_getD, List.getElem?_eq_getElem hlt]
  exact hbelow _ (List.getElem_mem hlt)

/-- A place that is known is still known after a request. -/
theorem places_prefix_step (s : Session FileSet) (r : Request) : s.places <+: (s.step Store.memory r).1.places := by
  rcases s.step_cases r with ⟨_, _, place, _, _, hstep⟩ | ⟨_, _, _, _, _, _, hstep⟩ | ⟨_, hstep⟩
  · exact ⟨[place], by rw [hstep]⟩
  · exact ⟨[], by rw [hstep, List.append_nil]⟩
  · exact ⟨[], by rw [hstep, List.append_nil]⟩

/-- A place that is known stays known. -/
theorem places_prefix_run (s : Session FileSet) (requests : List Request) :
    s.places <+: (s.run Store.memory requests).places := by
  induction requests generalizing s with
  | nil => exact List.prefix_refl _
  | cons r rest ih => exact (s.places_prefix_step r).trans (ih _)

/-- A handle of a place below the root keeps its meaning when more places are known. -/
theorem place_eq_of_prefix {s' : Session FileSet} (h : s.places <+: s'.places) {handle : Nat}
    (hne : s.place handle ≠ []) : s'.place handle = s.place handle := by
  unfold place at hne ⊢
  rw [List.getD_eq_getElem?_getD] at hne
  cases hplace : s.places[handle]? with
  | none =>
    rw [hplace] at hne
    exact absurd rfl hne
  | some found =>
    obtain ⟨more, hmore⟩ := h
    have hlt := (List.getElem?_eq_some_iff.mp hplace).1
    rw [List.getD_eq_getElem?_getD, List.getD_eq_getElem?_getD, ← hmore, List.getElem?_append_left hlt]

/-! ### Writes in any order -/

/-- The writes of a run succeed as well, with the same files, if all places of the run are opened first. -/
theorem writesSucceed_opened {places : List Place} {requests : List Request}
    (hplaces : (s.run Store.memory requests).places <+: places) (h : s.WritesSucceed Store.memory requests) :
    WritesSucceed Store.memory ⟨places, s.target⟩ (requests.filter Request.isWrite) ∧
      (Session.run Store.memory ⟨places, s.target⟩ (requests.filter Request.isWrite)).target =
        (s.run Store.memory requests).target := by
  induction requests generalizing s with
  | nil => exact ⟨trivial, rfl⟩
  | cons r rest ih =>
    obtain ⟨hfirst, hrest⟩ := h
    cases r with
    | sub handle name =>
      -- opening a place leaves the files alone
      have htarget : (s.step Store.memory (.sub handle name)).1.target = s.target := by
        rw [step]
        split <;> rfl
      have hopened := ih hplaces hrest
      rw [htarget] at hopened
      exact hopened
    | write handle extension lines =>
      obtain ⟨written, hwritten⟩ := step_write_eq_ok_iff.mp (hfirst rfl)
      have hstep := step_write hwritten
      -- the place was known when the file was written, so it is the same now
      have hknown : s.places <+: places := (s.places_prefix_run _).trans hplaces
      have hplace : Session.place ⟨places, s.target⟩ handle = s.place handle :=
        place_eq_of_prefix hknown (FileSet.write_eq_ok_iff.mp hwritten).1
      have hopened : Session.step Store.memory ⟨places, s.target⟩ (.write handle extension lines) =
          (⟨places, written⟩, .ok ()) := step_write (by rw [hplace]; exact hwritten)
      rw [run, List.foldl_cons, hstep] at hplaces
      rw [hstep] at hrest
      obtain ⟨hsucceed, htarget⟩ := ih hplaces hrest
      rw [List.filter_cons_of_pos rfl]
      refine ⟨⟨fun _ => by rw [hopened], by rw [hopened]; exact hsucceed⟩, ?_⟩
      rw [run, run, List.foldl_cons, List.foldl_cons, hopened, hstep]
      exact htarget

/-- Writes that all succeed can be made in any order. -/
theorem writesSucceed_perm {writes others : List Request} (hperm : writes.Perm others)
    (hwrites : ∀ r ∈ writes, r.isWrite = true) (h : s.WritesSucceed Store.memory writes) :
    s.WritesSucceed Store.memory others ∧
      (s.run Store.memory others).target = (s.run Store.memory writes).target := by
  induction hperm generalizing s with
  | nil => exact ⟨trivial, rfl⟩
  | cons r _ ih =>
    obtain ⟨hfirst, hrest⟩ := h
    obtain ⟨hsucceed, htarget⟩ := ih (fun r' hr' => hwrites r' (List.mem_cons_of_mem _ hr')) hrest
    exact ⟨⟨hfirst, hsucceed⟩, htarget⟩
  | swap r r' rest =>
    obtain ⟨hfirst, hsecond, hrest⟩ := h
    obtain ⟨hr', hr, -⟩ := List.forall_mem_cons.mp hwrites |>.imp_right List.forall_mem_cons.mp
    cases r with
    | sub handle name => cases hr
    | write handle extension lines =>
      cases r' with
      | sub handle' name' => cases hr'
      | write handle' extension' lines' =>
        obtain ⟨between, hbetween⟩ := step_write_eq_ok_iff.mp (hfirst rfl)
        rw [step_write hbetween] at hsecond hrest
        obtain ⟨written, hwritten⟩ := step_write_eq_ok_iff.mp (hsecond rfl)
        rw [step_write hwritten] at hrest
        obtain ⟨other, hother, hlast⟩ := FileSet.write_comm hbetween hwritten
        -- either way round the session ends with the same files
        have hone := step_write hother
        have htwo : Session.step Store.memory ⟨s.places, other⟩ (.write handle' extension' lines') =
            (⟨s.places, written⟩, .ok ()) := step_write hlast
        refine ⟨⟨fun _ => by rw [hone], fun _ => by rw [hone, htwo], by rw [hone, htwo]; exact hrest⟩, ?_⟩
        simp only [run, List.foldl_cons, hone, htwo, step_write hbetween]
        rw [step_write hwritten]
  | trans first _ ih ih' =>
    obtain ⟨hsucceed, htarget⟩ := ih hwrites h
    obtain ⟨hsucceed', htarget'⟩ := ih' (fun r hr => hwrites r (first.mem_iff.mpr hr)) hsucceed
    exact ⟨hsucceed', htarget'.trans htarget⟩

/-- **Files are written once, in any order.** Take any output in memory after any requests. A request that is
refused changes neither the files nor the known places. A file that is there keeps its lines whatever is requested
later, and so does a file that is written now. The root takes no file. Any other known place takes a file exactly if
its path is free or holds the same lines. And if requests follow all of whose writes succeed, then these writes
succeed in every order, once the places are opened, and they end with the same files, fingerprints and digest. -/
theorem written_once_in_any_order (files : FileSet) (requests : List Request) :
    let s := (start files).run Store.memory requests
    (∀ r cause, (s.step Store.memory r).2 = .error cause → (s.step Store.memory r).1 = s) ∧
    (∀ later path lines, s.target.get? path = some lines →
      (s.run Store.memory later).target.get? path = some lines) ∧
    (∀ handle extension lines later, (s.step Store.memory (.write handle extension lines)).2 = .ok () →
      (s.run Store.memory (.write handle extension lines :: later)).target.get?
        ((s.place handle).text ++ extension) = some lines) ∧
    (∀ extension lines, ∃ cause, (s.step Store.memory (.write 0 extension lines)).2 = .error cause) ∧
    (∀ handle extension lines, handle ≠ 0 → handle < s.places.length →
      ((s.step Store.memory (.write handle extension lines)).2 = .ok () ↔
        s.target.get? ((s.place handle).text ++ extension) = none ∨
        s.target.get? ((s.place handle).text ++ extension) = some lines)) ∧
    ∀ later writes, s.WritesSucceed Store.memory later → writes.Perm (later.filter Request.isWrite) →
      let opened : Session FileSet := ⟨(s.run Store.memory later).places, s.target⟩
      opened.WritesSucceed Store.memory writes ∧
        (opened.run Store.memory writes).target = (s.run Store.memory later).target ∧
        (opened.run Store.memory writes).target.hashes = (s.run Store.memory later).target.hashes ∧
        (opened.run Store.memory writes).target.digest = (s.run Store.memory later).target.digest := by
  intro s
  have hrooted : s.IsRooted := (isRooted_start files).run requests
  refine ⟨fun r cause hcause => ?_, fun later path lines => s.kept_run later path lines,
    fun handle extension lines later hok => ?_, fun extension lines => ?_,
    fun handle extension lines hne hlt => ?_, fun later writes hsucceed hperm => ?_⟩
  · rcases s.step_cases r with ⟨_, _, _, _, _, hstep⟩ | ⟨_, _, _, _, _, _, hstep⟩ | ⟨_, hstep⟩ <;>
      rw [hstep] at hcause ⊢
    · cases hcause
    · cases hcause
  · obtain ⟨written, hwritten⟩ := step_write_eq_ok_iff.mp hok
    have hthere := (FileSet.get?_of_write hwritten _ lines).mpr (Or.inr ⟨rfl, rfl⟩)
    rw [run, List.foldl_cons, step_write hwritten]
    exact kept_run ⟨s.places, written⟩ later _ lines hthere
  · refine ⟨.invalidName extension, ?_⟩
    simp only [step, Store.memory, FileSet.write, hrooted.place_zero, if_true]
  · rw [step_write_eq_ok_iff, FileSet.exists_write_iff]
    exact and_iff_right (hrooted.place_ne_nil hne hlt)
  · obtain ⟨hfiltered, htarget⟩ := writesSucceed_opened (List.prefix_refl _) hsucceed
    have hwrites : ∀ r ∈ later.filter Request.isWrite, r.isWrite = true := fun r hr => (List.mem_filter.mp hr).2
    obtain ⟨hall, hsame⟩ := writesSucceed_perm hperm.symm hwrites hfiltered
    have hfiles := hsame.trans htarget
    exact ⟨hall, hfiles, congrArg FileSet.hashes hfiles, congrArg FileSet.digest hfiles⟩

/-- A path that two places share: other lines are refused there, the same lines are accepted, and another file
can be written before or after them. -/
theorem written_once_sharedPath :
    let s := (start Table.empty).run Store.memory [.sub 0 "a", .sub 1 "b", .write 1 "/b.vhd" ["x"]]
    let later : List Request := [.write 2 ".vhd" ["x"], .sub 0 "c", .write 3 ".vhd" ["y"]]
    s.target.get? "a/b.vhd" = some ["x"] ∧ (s.step Store.memory (.write 2 ".vhd" ["z"])).2 ≠ .ok () ∧
      s.WritesSucceed Store.memory later ∧
      (Session.run Store.memory ⟨(s.run Store.memory later).places, s.target⟩
        [.write 3 ".vhd" ["y"], .write 2 ".vhd" ["x"]]).target = (s.run Store.memory later).target := by
  intro s later
  obtain ⟨-, -, -, -, hshared, horder⟩ :=
    written_once_in_any_order Table.empty [.sub 0 "a", .sub 1 "b", .write 1 "/b.vhd" ["x"]]
  have hsucceed : s.WritesSucceed Store.memory later :=
    ⟨fun _ => by decide, ⟨fun h => (by cases h), ⟨fun _ => by decide, trivial⟩⟩⟩
  refine ⟨by decide, fun hok => ?_, hsucceed, ?_⟩
  · exact absurd ((hshared 2 ".vhd" ["z"] (by decide) (by decide)).mp hok) (by decide)
  · exact (horder later [.write 3 ".vhd" ["y"], .write 2 ".vhd" ["x"]] hsucceed (List.Perm.swap _ _ _)).2.1

end Session

end QuantNet
