import RtBackup.Hijacks
import RtBackup.Lib.Runs
import RtBackup.Lib.UndoLog

/-!
# Loading and unloading (`hijack_syscalls`, `undo_hijack_syscalls`)

Loading the module patches the eight functions that it can patch, and unloading
takes the patches back in the same order. The text of the kernel is then as it
was. The protection of the pages is so too where it is changed in the page
tables; `change_page_attr` leaves every page that was patched read-only.

Results:
1. `hijackSyscalls_loaded`: what is patched after loading, and with what saved.
2. `undoHijackSyscalls_unloading`: unloading takes back what was patched.
3. `unloading_undoes_loading_iff`: when it leaves nothing behind.
-/

namespace RtBackup

open AddressSpace Runs UndoLog

variable {w : Nat} {Page : Type}

/-! ## `security2hook` -/

def security2hook : List HookedFunction :=
  [.write, .mkdir, .rmdir, .rename, .unlink, .symlink, .link, .create]

theorem mem_security2hook (f : HookedFunction) : f ∈ security2hook := by
  cases f <;> decide

structure KernelModule (w : Nat) (Page : Type) where
  kernel : Kernel w Page
  sym : HookedFunction → Kernsym w
  /-- The functions that `printfail` reports. -/
  failed : List HookedFunction

/-- The module before `hijack_syscalls`. -/
def KernelModule.start (k : Kernel w Page) : KernelModule w Page where
  kernel := { k with stores := [] }
  sym _ := {}
  failed := []

section

variable [DecidableEq Page]

/-- One iteration of `hijack_syscalls`. -/
def hijackOne (env : Platform w Page) (m : KernelModule w Page) (f : HookedFunction) :
    Option (KernelModule w Page) :=
  (symbolHijack env f (m.sym f) m.kernel).map fun (ret, sym, kernel) =>
    { kernel, sym := Function.update m.sym f sym
      failed := if ret < 0 then m.failed ++ [f] else m.failed }

def hijackSyscalls (env : Platform w Page) (m : KernelModule w Page) :
    Option (KernelModule w Page) :=
  security2hook.foldlM (hijackOne env) m

/-- One iteration of `undo_hijack_syscalls`. -/
def restoreOne (env : Platform w Page) (m : KernelModule w Page) (f : HookedFunction) :
    Option (KernelModule w Page) :=
  (symbolRestore env (m.sym f) m.kernel).map fun (sym, kernel) =>
    { m with kernel, sym := Function.update m.sym f sym }

def undoHijackSyscalls (env : Platform w Page) (m : KernelModule w Page) :
    Option (KernelModule w Page) :=
  security2hook.foldlM (restoreOne env) m

def loadUnload (env : Platform w Page) (k : Kernel w Page) : Option (KernelModule w Page) :=
  (hijackSyscalls env (.start k)).bind (undoHijackSyscalls env)

end

/-! ## What is assumed, and what is to be shown -/

namespace Platform

variable (env : Platform w Page)

def Found (f : HookedFunction) : Prop := 0 ≤ (env.symbol f).status

/-- The bytes of a function. -/
def range (f : HookedFunction) : Set (BitVec w) :=
  block (env.symbol f).addr (env.symbol f).size.toNat

/-- The functions found have no byte in common. -/
def Apart : Prop := ∀ f g, env.Found f → env.Found g → f ≠ g → Disjoint (env.range f) (env.range g)

/-- A function found ends before the last bytes of the address space. -/
def Fits (f : HookedFunction) : Prop :=
  (env.symbol f).addr.toNat + (env.symbol f).size.toNat + 255 ≤ 2 ^ w

/-- A byte that belongs to `f`; of a function that is not found it is only known
that no other one has it. -/
def Owns (f : HookedFunction) (a : BitVec w) : Prop :=
  (env.Found f → a ∈ env.range f) ∧ ∀ g, env.Found g → g ≠ f → a ∉ env.range g

end Platform

/-- Nothing is left behind, and the functions that were reported were never
touched. -/
structure Undone (env : Platform w Page) (k₀ : Kernel w Page) (m : KernelModule w Page) : Prop where
  text : m.kernel.text = k₀.text
  writable : m.kernel.writable = k₀.writable
  untouched : ∀ f ∈ m.failed, ∀ a, env.Owns f a → a ∉ m.kernel.stores

/-! ## While the patches are in force -/

section

variable {env : Platform w Page} {k₀ : Kernel w Page} {m m' : KernelModule w Page}

/-- The bytes that a symbol has saved. -/
def Kernsym.savedText (sym : Kernsym w) : Option (Image w) :=
  if sym.hijacked then some (overwrite (fun _ => 0) sym.addr sym.origStartBytes) else none

/-- The page is read-only since `change_page_attr` has been called for `f`. -/
def LockedBy (env : Platform w Page) (k₀ : Kernel w Page) (page : Page) (f : HookedFunction) :
    Prop :=
  env.pageApi = .changePageAttr ∧ Accepted env k₀.text f ∧ env.pageOf (env.symbol f).addr = page

/-- A symbol that is hijacked is that of an accepted function among `done`. -/
def InForce (env : Platform w Page) (k₀ : Kernel w Page) (done : List HookedFunction)
    (f : HookedFunction) (sym : Kernsym w) : Prop :=
  sym.hijacked = true →
    f ∈ done ∧ Accepted env k₀.text f ∧ sym.addr = (env.symbol f).addr

/-- What holds after the functions `done` have been tried, and while they are
restored. -/
structure Loaded (env : Platform w Page) (k₀ : Kernel w Page) (done : List HookedFunction)
    (m : KernelModule w Page) : Prop where
  undoable : Undoable env.site k₀.text (fun f => (m.sym f).savedText) m.kernel.text
  hijacked : ∀ f, InForce env k₀ done f (m.sym f)
  failed : ∀ f ∈ m.failed, ¬Accepted env k₀.text f
  writable : ∀ page, m.kernel.writable page = true ↔
    k₀.writable page = true ∧ ∀ f ∈ done, ¬LockedBy env k₀ page f
  stores : ∀ a ∈ m.kernel.stores, ∃ f, Accepted env k₀.text f ∧ a ∈ env.site f

theorem start_loaded (env : Platform w Page) (k₀ : Kernel w Page) :
    Loaded env k₀ [] (.start k₀) where
  undoable := .start fun _ => rfl
  hijacked _ h := absurd h nofun
  failed _ h := absurd h List.not_mem_nil
  writable _ := (and_iff_left fun _ h => absurd h List.not_mem_nil).symm
  stores _ h := absurd h List.not_mem_nil

theorem isSome_savedText {sym : Kernsym w} :
    sym.savedText.isSome = true ↔ sym.hijacked = true := by
  unfold Kernsym.savedText
  cases sym.hijacked with
  | true => exact iff_of_true rfl rfl
  | false => exact iff_of_false nofun nofun

theorem savedText_of_not_hijacked {sym : Kernsym w} (h : sym.hijacked = false) :
    sym.savedText = none := by
  rw [Kernsym.savedText, h]
  rfl

theorem update_savedText (sym : HookedFunction → Kernsym w) (f : HookedFunction) (s : Kernsym w) :
    (fun g => (Function.update sym f s g).savedText) =
      Function.update (fun g => (sym g).savedText) f s.savedText :=
  funext fun g => Function.apply_update (fun _ => Kernsym.savedText) sym f s g

theorem InForce.mono {done done' : List HookedFunction} (hsub : done ⊆ done') {f : HookedFunction}
    {sym : Kernsym w} (h : InForce env k₀ done f sym) : InForce env k₀ done' f sym :=
  fun hh => (h hh).imp_left fun hf => hsub hf

theorem InForce.update {done : List HookedFunction} {sym : HookedFunction → Kernsym w}
    (h : ∀ g, InForce env k₀ done g (sym g)) {f : HookedFunction} {s : Kernsym w}
    (hs : InForce env k₀ done f s) : ∀ g, InForce env k₀ done g (Function.update sym f s g) :=
  (Function.forall_update_iff sym (p := InForce env k₀ done)).mpr ⟨hs, fun g _ => h g⟩

theorem Accepted.found_range {text : Image w} {f : HookedFunction} (h : Accepted env text f) :
    env.Found f ∧ env.site f ⊆ env.range f :=
  ⟨h.found, block_mono _ h.long_enough⟩

/-- Only the bytes of the function are looked at. -/
theorem Accepted.congr {text text' : Image w} {f : HookedFunction}
    (heq : Set.EqOn text text' (env.range f)) (h : Accepted env text f) :
    Accepted env text' f where
  found := h.found
  not_jump := by
    have hfirst : (env.symbol f).addr ∈ env.range f := by
      have hmem := add_mem_block (env.symbol f).addr (i := 0)
        (Nat.lt_of_lt_of_le (by decide) h.long_enough)
      rwa [BitVec.add_zero] at hmem
    exact heq hfirst ▸ h.not_jump
  allocated := h.allocated
  long_enough := h.long_enough
  not_zero := imageEnd_congr heq ▸ h.not_zero
  decodes := imageEnd_congr heq ▸ h.decodes

/-- The functions that are patched leave the bytes of another one alone. -/
theorem Loaded.eqOn_range (hapart : env.Apart) {done : List HookedFunction}
    (hl : Loaded env k₀ done m) {f : HookedFunction} (hf : f ∉ done) (hfound : env.Found f) :
    Set.EqOn m.kernel.text k₀.text (env.range f) := by
  refine hl.undoable.eqOn_of_disjoint fun g hg => ?_
  obtain ⟨hdone, hok, -⟩ := hl.hijacked g (isSome_savedText.mp hg)
  have hne : g ≠ f := fun heq => hf (heq ▸ hdone)
  exact (hapart g f hok.found hfound hne).mono_left hok.found_range.2

theorem Loaded.accepted_iff (hapart : env.Apart) {done : List HookedFunction}
    (hl : Loaded env k₀ done m) {f : HookedFunction} (hf : f ∉ done) :
    Accepted env m.kernel.text f ↔ Accepted env k₀.text f :=
  ⟨fun h => h.congr (hl.eqOn_range hapart hf h.found),
    fun h => h.congr (hl.eqOn_range hapart hf h.found).symm⟩

theorem Loaded.not_hijacked {done : List HookedFunction} (hl : Loaded env k₀ done m)
    {f : HookedFunction} (hf : f ∉ done) : (m.sym f).hijacked = false := by
  cases hh : (m.sym f).hijacked with
  | false => rfl
  | true => exact absurd (hl.hijacked f hh).1 hf

/-- The text stays, and the function is reported. -/
theorem Loaded.report {done : List HookedFunction} (hl : Loaded env k₀ done m)
    {f : HookedFunction} (hf : f ∉ done) (hnot : ¬Accepted env k₀.text f) {sym : Kernsym w}
    (hhijacked : sym.hijacked = (m.sym f).hijacked) {k : Kernel w Page}
    (htext : k.text = m.kernel.text) (hrw : k.writable = m.kernel.writable)
    (hstores : k.stores = m.kernel.stores) :
    Loaded env k₀ (done ++ [f]) ⟨k, Function.update m.sym f sym, m.failed ++ [f]⟩ := by
  have hfresh := hl.not_hijacked hf
  refine ⟨?_, ?_, fun g hg => ?_, fun page => ?_, ?_⟩
  · rw [update_savedText, savedText_of_not_hijacked (hhijacked.trans hfresh),
      ← savedText_of_not_hijacked hfresh, Function.update_eq_self, htext]
    exact hl.undoable
  · refine InForce.update (fun g => (hl.hijacked g).mono (List.subset_append_left _ _)) fun hg => ?_
    exact absurd (hg.symm.trans (hhijacked.trans hfresh)) nofun
  · rcases List.mem_append.mp hg with hg | hg
    · exact hl.failed g hg
    · exact List.mem_singleton.mp hg ▸ hnot
  · rw [hrw, hl.writable page, List.forall_mem_append, List.forall_mem_singleton]
    exact and_congr_right fun _ => (and_iff_left fun hlocked => hnot hlocked.2.1).symm
  · rw [hstores]
    exact hl.stores

variable [DecidableEq Page]

theorem settle_eq_true {api : PageApi} {page p : Page} {writable : Page → Bool} :
    settle api page writable p = true ↔
      writable p = true ∧ ¬(api = .changePageAttr ∧ page = p) := by
  cases api with
  | lookupAddress => exact (and_iff_left fun h => absurd h.1 nofun).symm
  | changePageAttr =>
    change Function.update writable page false p = true ↔ _
    by_cases hp : p = page
    · subst hp
      rw [Function.update_self]
      exact iff_of_false nofun fun h => h.2 ⟨rfl, rfl⟩
    · rw [Function.update_of_ne hp]
      exact (and_iff_left fun h => hp h.2.symm).symm

theorem hijackOne_eq {f : HookedFunction} (h : hijackOne env m f = some m') :
    ∃ ret sym k, symbolHijack env f (m.sym f) m.kernel = some (ret, sym, k) ∧
      m' = ⟨k, Function.update m.sym f sym, if ret < 0 then m.failed ++ [f] else m.failed⟩ := by
  obtain ⟨⟨ret, sym, k⟩, hhijack, heq⟩ := Option.map_eq_some_iff.mp h
  exact ⟨ret, sym, k, hhijack, heq.symm⟩

/-- The function is patched, and its bytes are those that nobody has touched. -/
theorem Loaded.patch (hapart : env.Apart) {done : List HookedFunction} (hl : Loaded env k₀ done m)
    {f : HookedFunction} (hf : f ∉ done) (hok : Accepted env k₀.text f) {sym : Kernsym w}
    (hhijacked : sym.hijacked = true) (haddr : sym.addr = (env.symbol f).addr)
    (hsaved : sym.origStartBytes = bytesAt m.kernel.text (env.symbol f).addr opJmpSize)
    {k : Kernel w Page} (hpatched : Patched env (env.symbol f).addr m.kernel k) :
    Loaded env k₀ (done ++ [f]) ⟨k, Function.update m.sym f sym, m.failed⟩ := by
  refine ⟨?_, ?_, hl.failed, fun page => ?_, fun a ha => ?_⟩
  · rw [update_savedText, Kernsym.savedText, if_pos hhijacked, haddr, hsaved]
    refine hl.undoable.patch (fun g hg => ?_) (fun a ha => overwrite_bytesAt ha) hpatched.text_eq
    obtain ⟨hdone, hgok, -⟩ := hl.hijacked g (isSome_savedText.mp hg)
    have hne : g ≠ f := fun heq => hf (heq ▸ hdone)
    exact (hapart g f hgok.found hok.found hne).mono hgok.found_range.2 hok.found_range.2
  · exact InForce.update (fun g => (hl.hijacked g).mono (List.subset_append_left _ _)) fun _ =>
      ⟨List.mem_append_right _ (List.mem_singleton_self f), hok, haddr⟩
  · rw [hpatched.writable_eq, settle_eq_true, hl.writable page, List.forall_mem_append,
      List.forall_mem_singleton, and_assoc]
    refine and_congr_right fun _ => and_congr_right fun _ => not_congr ?_
    exact ⟨fun h => ⟨h.1, hok, h.2⟩, fun h => ⟨h.1, h.2.2⟩⟩
  · rcases hpatched.stores_mem a ha with ha | ha
    · exact hl.stores a ha
    · exact ⟨f, hok, ha⟩

theorem hijackOne_loaded (hapart : env.Apart) {done : List HookedFunction} {f : HookedFunction}
    (hf : f ∉ done) (hl : Loaded env k₀ done m) (h : hijackOne env m f = some m') :
    Loaded env k₀ (done ++ [f]) m' := by
  obtain ⟨ret, sym, k, hhijack, rfl⟩ := hijackOne_eq h
  have haccepted := hl.accepted_iff hapart hf
  rcases symbolHijack_cases hhijack with
    ⟨hret, hnot, hhijacked, htext, hrw, hstores⟩ | ⟨hret, hok, hhijacked, haddr, hsaved, hpatched⟩
  · rw [if_pos hret]
    exact hl.report hf (haccepted.not.mp hnot) hhijacked htext hrw hstores
  · rw [if_neg (by rw [hret]; decide)]
    exact hl.patch hapart hf (haccepted.mp hok) hhijacked haddr hsaved hpatched

/-! ## While the patches are taken back -/

/-- The functions `undone` are restored. -/
structure Unloading (env : Platform w Page) (k₀ : Kernel w Page) (undone : List HookedFunction)
    (m : KernelModule w Page) : Prop extends Loaded env k₀ security2hook m where
  restored : ∀ f ∈ undone, (m.sym f).hijacked = false

theorem restoreOne_eq {f : HookedFunction} (h : restoreOne env m f = some m') :
    ∃ sym k, symbolRestore env (m.sym f) m.kernel = some (sym, k) ∧
      m' = ⟨k, Function.update m.sym f sym, m.failed⟩ := by
  obtain ⟨⟨sym, k⟩, hrestore, heq⟩ := Option.map_eq_some_iff.mp h
  exact ⟨sym, k, hrestore, heq.symm⟩

theorem restoreOne_unloading {undone : List HookedFunction} {f : HookedFunction}
    (hl : Unloading env k₀ undone m) (h : restoreOne env m f = some m') :
    Unloading env k₀ (undone ++ [f]) m' := by
  obtain ⟨sym, k, hrestore, rfl⟩ := restoreOne_eq h
  rcases symbolRestore_cases hrestore with ⟨hnot, rfl, rfl⟩ | ⟨hhijacked, rfl, htext, hpatched⟩
  · rw [Function.update_eq_self]
    refine ⟨hl.toLoaded, fun g hg => ?_⟩
    rcases List.mem_append.mp hg with hg | hg
    · exact hl.restored g hg
    · exact List.mem_singleton.mp hg ▸ hnot
  · obtain ⟨-, hok, haddr⟩ := hl.hijacked f hhijacked
    rw [haddr] at htext hpatched
    refine ⟨⟨?_, ?_, hl.failed, fun page => ?_, fun a ha => ?_⟩, ?_⟩
    · rw [update_savedText]
      have hsaved : (m.sym f).savedText =
          some (overwrite (fun _ => 0) (env.symbol f).addr (m.sym f).origStartBytes) := by
        rw [Kernsym.savedText, if_pos hhijacked, haddr]
      refine hl.undoable.undo hsaved (fun a ha => ?_) hpatched.text_eq
      rw [htext]
      exact overwrite_congr _ _ ((m.sym f).origStartBytes_length.symm ▸ ha)
    · exact InForce.update hl.hijacked fun hg => absurd hg nofun
    · rw [hpatched.writable_eq, settle_eq_true, hl.writable page]
      refine and_iff_left_of_imp fun hrw hlocked => ?_
      exact hrw.2 f (mem_security2hook f) ⟨hlocked.1, hok, hlocked.2⟩
    · rcases hpatched.stores_mem a ha with ha | ha
      · exact hl.stores a ha
      · exact ⟨f, hok, ha⟩
    · refine (Function.forall_update_iff m.sym (p := fun g s => g ∈ undone ++ [f] →
        s.hijacked = false)).mpr ⟨fun _ => rfl, fun g hne hg => hl.restored g ?_⟩
      exact (List.mem_append.mp hg).resolve_right fun hmem => hne (List.mem_singleton.mp hmem)

/-! ## Whole runs -/

theorem not_mem_done {done rest : List HookedFunction} {f : HookedFunction}
    (h : done ++ f :: rest = security2hook) : f ∉ done := by
  have hnodup : (done ++ f :: rest).Nodup := h ▸ by decide
  exact fun hf => List.disjoint_of_nodup_append hnodup hf List.mem_cons_self

theorem hijackSyscalls_loaded (hapart : env.Apart) (h : hijackSyscalls env (.start k₀) = some m) :
    Loaded env k₀ security2hook m :=
  foldlM_invariant (I := Loaded env k₀)
    (fun _ _ _ _ _ hall hl hstep => hijackOne_loaded hapart (not_mem_done hall) hl hstep)
    (List.nil_append _) (start_loaded env k₀) h

theorem undoHijackSyscalls_unloading (hl : Loaded env k₀ security2hook m)
    (h : undoHijackSyscalls env m = some m') : Unloading env k₀ security2hook m' :=
  foldlM_invariant (I := Unloading env k₀)
    (fun _ _ _ _ _ _ hl hstep => restoreOne_unloading hl hstep)
    (List.nil_append _) ⟨hl, fun _ hf => absurd hf List.not_mem_nil⟩ h

theorem loadUnload_unloading (hapart : env.Apart) (h : loadUnload env k₀ = some m) :
    Unloading env k₀ security2hook m := by
  obtain ⟨loaded, hload, hundo⟩ := Option.bind_eq_some_iff.mp h
  exact undoHijackSyscalls_unloading (hijackSyscalls_loaded hapart hload) hundo

/-- Loading and unloading do not fault. -/
theorem loadUnload_isSome (hapart : env.Apart)
    (hpage : ∀ f, env.Found f → env.OnePage (env.symbol f).addr)
    (hfits : ∀ f, env.Found f → env.Fits f) (k₀ : Kernel w Page) :
    (loadUnload env k₀).isSome = true := by
  have hload : (hijackSyscalls env (.start k₀)).isSome = true :=
    foldlM_isSome (I := Loaded env k₀)
      (fun _ _ _ _ _ hall hl hstep => hijackOne_loaded hapart (not_mem_done hall) hl hstep)
      (fun _ f m _ => by
        rw [hijackOne, Option.isSome_map]
        exact symbolHijack_isSome (fun hf => ⟨hpage f hf, hfits f hf⟩) _ _)
      (List.nil_append _) (start_loaded env k₀)
  obtain ⟨m, hm⟩ := Option.isSome_iff_exists.mp hload
  rw [loadUnload, hm, Option.bind_some]
  refine foldlM_isSome (I := Unloading env k₀)
    (fun _ _ _ _ _ _ hl hstep => restoreOne_unloading hl hstep)
    (fun _ f m hl => ?_) (List.nil_append _)
    ⟨hijackSyscalls_loaded hapart hm, fun _ hf => absurd hf List.not_mem_nil⟩
  rw [restoreOne, Option.isSome_map]
  refine symbolRestore_isSome (fun hh => ?_) _
  obtain ⟨-, hok, haddr⟩ := hl.hijacked f hh
  exact haddr ▸ hpage f hok.found

omit [DecidableEq Page] in
theorem Unloading.text_eq (hl : Unloading env k₀ security2hook m) : m.kernel.text = k₀.text :=
  hl.undoable.eq_of_none fun f =>
    savedText_of_not_hijacked (hl.restored f (mem_security2hook f))

omit [DecidableEq Page] in
/-- Stores go to the first bytes of functions that are accepted. -/
theorem Unloading.untouched (hl : Unloading env k₀ security2hook m) :
    ∀ f ∈ m.failed, ∀ a, env.Owns f a → a ∉ m.kernel.stores := by
  intro f hf a howns ha
  obtain ⟨g, hok, hsite⟩ := hl.stores a ha
  have hne : g ≠ f := fun heq => hl.failed f hf (heq ▸ hok)
  exact howns.2 g hok.found hne (hok.found_range.2 hsite)

omit [DecidableEq Page] in
theorem Unloading.writable_iff (hl : Unloading env k₀ security2hook m) :
    m.kernel.writable = k₀.writable ↔
      env.pageApi = .lookupAddress ∨
        ∀ f, Accepted env k₀.text f → k₀.writable (env.pageOf (env.symbol f).addr) = false := by
  constructor
  · intro heq
    cases hapi : env.pageApi with
    | lookupAddress => exact .inl rfl
    | changePageAttr =>
      refine .inr fun f hok => Bool.eq_false_iff.mpr fun hrw => ?_
      have hafter := (hl.writable _).mp (heq ▸ hrw)
      exact hafter.2 f (mem_security2hook f) ⟨hapi, hok, rfl⟩
  · intro hor
    refine funext fun page => Bool.eq_iff_iff.mpr ((hl.writable page).trans ?_)
    refine and_iff_left_of_imp fun hrw f _ hlocked => ?_
    obtain ⟨hapi, hok, rfl⟩ := hlocked
    rcases hor with hlookup | hreadOnly
    · exact absurd (hlookup.symm.trans hapi) nofun
    · exact absurd (hrw.symm.trans (hreadOnly f hok)) nofun

/-- Loading and unloading the module leaves the text and the page protection as
they were, and never touches a function that could not be hooked, exactly if the
protection is changed in the page table entries or every function that is hooked
lies in a read-only page. -/
theorem unloading_undoes_loading_iff (env : Platform w Page) (k₀ : Kernel w Page)
    (hapart : env.Apart) (hpage : ∀ f, env.Found f → env.OnePage (env.symbol f).addr) :
    ((∀ f, env.Found f → env.Fits f) → (loadUnload env k₀).isSome = true) ∧
    ∀ m, loadUnload env k₀ = some m →
      (Undone env k₀ m ↔ env.pageApi = .lookupAddress ∨
        ∀ f, Accepted env k₀.text f → k₀.writable (env.pageOf (env.symbol f).addr) = false) := by
  refine ⟨fun hfits => loadUnload_isSome hapart hpage hfits k₀, fun m hm => ?_⟩
  have hl := loadUnload_unloading hapart hm
  rw [← hl.writable_iff]
  exact ⟨fun h => h.writable, fun h => ⟨hl.text_eq, h, hl.untouched⟩⟩

end

/-! ## Concrete runs -/

/-- `vfs_write`, and behind it `vfs_mkdir`, of 16 bytes each. -/
def vfsWriteAddr : BitVec 64 := 0xffffffff81100000

/-- `0f 1f 84 00 00 00 00 00`. -/
def nop8 : Insn where
  prefixes := ⟨0, 0⟩
  rex := ⟨0, 0⟩
  vex := ⟨0, 0⟩
  opcode := ⟨0x1f0f, 2⟩
  modrm := ⟨0x84, 1⟩
  sib := ⟨0, 1⟩
  displacement := ⟨0, 4⟩
  immediate := ⟨0, 0⟩
  length := 8
  ripRelative := false

/-- A kernel in which only these two are found. -/
def twoFunctions (api : PageApi) : Platform 64 (BitVec 64) where
  pageApi := api
  pageOf a := a >>> 12
  symbol
    | .write => ⟨0, vfsWriteAddr, vfsWriteAddr + 16⟩
    | .mkdir => ⟨0, vfsWriteAddr + 16, vfsWriteAddr + 32⟩
    | .rmdir | .rename | .unlink | .symlink | .link | .create => ⟨-EFAULT, 0, 0⟩
  malloc _ := some 0xffffffffa0000000
  decode _ := nop8
  func _ := 0xffffffffa0001000

/-- All pages are writable, and `vfs_mkdir` starts with a jump. -/
def writableKernel : Kernel 64 (BitVec 64) where
  text a := if a = vfsWriteAddr + 16 then opJmpRel32 else 0x90
  writable _ := true
  copies _ := 0
  stores := []

theorem twoFunctions_found {api : PageApi} {f : HookedFunction}
    (h : (twoFunctions api).Found f) : f = .write ∨ f = .mkdir := by
  cases f with
  | write => exact .inl rfl
  | mkdir => exact .inr rfl
  | rmdir | rename | unlink | symlink | link | create =>
    exact absurd h (by decide : ¬(0 : Int) ≤ -EFAULT)

theorem twoFunctions_apart (api : PageApi) : (twoFunctions api).Apart := by
  have hdisjoint :
      Disjoint ((twoFunctions api).range .write) ((twoFunctions api).range .mkdir) := by
    refine Set.disjoint_left.mpr fun a hwrite hmkdir => ?_
    have hlo : (a - vfsWriteAddr).toNat < (vfsWriteAddr + 16 - vfsWriteAddr).toNat := hwrite
    have hhi : (a - (vfsWriteAddr + 16)).toNat <
        (vfsWriteAddr + 32 - (vfsWriteAddr + 16)).toNat := hmkdir
    unfold vfsWriteAddr at hlo hhi
    bv_omega
  intro f g hf hg hne
  rcases twoFunctions_found hf with rfl | rfl <;> rcases twoFunctions_found hg with rfl | rfl
  · exact absurd rfl hne
  · exact hdisjoint
  · exact hdisjoint.symm
  · exact absurd rfl hne

theorem twoFunctions_onePage {api : PageApi} {f : HookedFunction} (h : (twoFunctions api).Found f) :
    (twoFunctions api).OnePage ((twoFunctions api).symbol f).addr := by
  have hpage : ∀ addr ∈ [vfsWriteAddr, vfsWriteAddr + 16], ∀ a ∈ block addr opJmpSize,
      a >>> 12 = addr >>> 12 := by
    intro addr haddr a ha
    have hnear : (a - addr).toNat < 5 := ha
    unfold vfsWriteAddr at haddr
    rcases List.mem_pair.mp haddr with rfl | rfl <;> bv_omega
  rcases twoFunctions_found h with rfl | rfl
  · exact hpage _ List.mem_cons_self
  · exact hpage _ (List.mem_cons_of_mem _ List.mem_cons_self)

theorem twoFunctions_fits {api : PageApi} {f : HookedFunction} (h : (twoFunctions api).Found f) :
    (twoFunctions api).Fits f := by
  rcases twoFunctions_found h with rfl | rfl
  · exact (by decide : vfsWriteAddr.toNat + (vfsWriteAddr + 16 - vfsWriteAddr).toNat + 255 ≤ 2 ^ 64)
  · exact (by decide : (vfsWriteAddr + 16).toNat +
      (vfsWriteAddr + 32 - (vfsWriteAddr + 16)).toNat + 255 ≤ 2 ^ 64)

theorem unloading_undoes_loading_page_tables :
    (loadUnload (twoFunctions .lookupAddress) writableKernel).isSome = true ∧
    ∀ m, loadUnload (twoFunctions .lookupAddress) writableKernel = some m →
      Undone (twoFunctions .lookupAddress) writableKernel m := by
  obtain ⟨hsome, hiff⟩ := unloading_undoes_loading_iff (twoFunctions .lookupAddress) writableKernel
    (twoFunctions_apart _) fun f hf => twoFunctions_onePage hf
  exact ⟨hsome fun f hf => twoFunctions_fits hf, fun m hm => (hiff m hm).mpr (.inl rfl)⟩

theorem write_accepted (api : PageApi) :
    Accepted (twoFunctions api) writableKernel.text .write where
  found := (by decide : (0 : Int) ≤ 0)
  not_jump := (by decide +kernel : writableKernel.text vfsWriteAddr ≠ opJmpRel32)
  allocated := rfl
  long_enough := (by decide : opJmpSize ≤ (vfsWriteAddr + 16 - vfsWriteAddr).toNat)
  not_zero := by cases api <;> decide +kernel
  decodes := by
    have hend : imageEnd writableKernel.text vfsWriteAddr (vfsWriteAddr + 16 - vfsWriteAddr) =
        vfsWriteAddr + 16 := by
      decide +kernel
    change Decodes (fun _ => nop8) (imageEnd writableKernel.text vfsWriteAddr
      (vfsWriteAddr + 16 - vfsWriteAddr)) vfsWriteAddr
    rw [hend]
    exact .insn (by decide) (by decide) (.insn (by decide) (by decide) (.finish (by decide)))

/-- With `change_page_attr`, the page of `vfs_write` is read-only afterwards. -/
theorem page_left_read_only :
    let env := twoFunctions .changePageAttr
    env.Apart ∧ (∀ f, env.Found f → env.OnePage (env.symbol f).addr) ∧
    ∃ m, loadUnload env writableKernel = some m ∧
      writableKernel.writable (env.pageOf vfsWriteAddr) = true ∧
      m.kernel.writable (env.pageOf vfsWriteAddr) = false ∧ ¬Undone env writableKernel m := by
  intro env
  refine ⟨twoFunctions_apart _, fun f hf => twoFunctions_onePage hf, ?_⟩
  obtain ⟨m, hm⟩ := Option.isSome_iff_exists.mp (loadUnload_isSome (twoFunctions_apart _)
    (fun f hf => twoFunctions_onePage hf) (fun f hf => twoFunctions_fits hf) writableKernel)
  have hlocked : m.kernel.writable (env.pageOf vfsWriteAddr) = false := by
    refine Bool.eq_false_iff.mpr fun hrw => ?_
    have hnot := (((loadUnload_unloading (twoFunctions_apart _) hm).writable _).mp hrw).2
    exact hnot .write (by decide) ⟨rfl, write_accepted _, rfl⟩
  refine ⟨m, hm, rfl, hlocked, fun hundone => ?_⟩
  exact absurd (congrFun hundone.writable _ ▸ hlocked) nofun

end RtBackup
