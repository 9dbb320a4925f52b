import ComponentStories.Proofs.FileSystem.Follow
import ComponentStories.Proofs.FileSystem.Path
import ComponentStories.Proofs.Sorted

/-
# File systems without links

In a file system without links every entry has a name and stands in a directory (`IsTree`); the same
may hold below a location only (`IsTreeBelow`).  A path leads through directories to a directory
(`LeadsTo`), and names that are joined to it lead further down, to the location of that directory
followed by the names (`item_foldl_join_eq_ok_iff`).
-/

namespace ComponentStories

/-- Whether an entry is a link. -/
def Entry.isLink : Entry → Bool
  | link _ => true
  | _ => false

namespace FileSystem

open ComponentStories.Path

/-- A file system without links: a directory tree. -/
structure IsTree (fs : FileSystem) : Prop where
  /-- Nothing is a link. -/
  plain : ∀ l target, fs.entryAt? l ≠ some (.link target)
  /-- What stands in a directory has a name. -/
  name : ∀ l n, fs.entryAt? (l ++ [n]) ≠ none → IsName n
  /-- Everything stands in a directory. -/
  parent : ∀ l n, fs.entryAt? (l ++ [n]) ≠ none → fs.entryAt? l = some .directory

/-- No links below a location: a directory tree, or a single entry. -/
structure IsTreeBelow (fs : FileSystem) (d : Location) : Prop where
  /-- Nothing is a link. -/
  plain : ∀ names target, fs.entryAt? (d ++ names) ≠ some (.link target)
  /-- What stands in a directory has a name. -/
  name : ∀ names n, fs.entryAt? (d ++ names ++ [n]) ≠ none → IsName n
  /-- Everything stands in a directory. -/
  parent : ∀ names n, fs.entryAt? (d ++ names ++ [n]) ≠ none →
    fs.entryAt? (d ++ names) = some .directory

theorem IsTree.below {fs : FileSystem} (htree : fs.IsTree) (d : Location) : fs.IsTreeBelow d :=
  ⟨fun _ => htree.plain _, fun _ => htree.name _, fun _ => htree.parent _⟩

/-- Below a location further down there are no links either. -/
theorem IsTreeBelow.append {fs : FileSystem} {d : Location} (h : fs.IsTreeBelow d)
    (names : List String) : fs.IsTreeBelow (d ++ names) := by
  constructor
  · intro rest
    rw [List.append_assoc]
    exact h.plain _
  · intro rest
    rw [List.append_assoc d]
    exact h.name _
  · intro rest
    rw [List.append_assoc d]
    exact h.parent _

/-- Whether an item is no link, has a name and stands in a directory. -/
def Fits (fs : FileSystem) (l : Location) (item : Item) : Prop :=
  item.entry.isLink = false ∧
    ∀ n ∈ l.getLast?, IsName n ∧ fs.entryAt? l.dropLast = some .directory

instance (fs : FileSystem) (l : Location) (item : Item) : Decidable (fs.Fits l item) :=
  inferInstanceAs (Decidable (_ ∧ _))

/-- There are no links below a location if all items there fit. -/
theorem isTreeBelow_of_forall_items {fs : FileSystem} {d : Location}
    (h : ∀ e ∈ fs.items, d <+: e.1 → fs.Fits e.1 e.2) : fs.IsTreeBelow d := by
  have hfits : ∀ names entry, fs.entryAt? (d ++ names) = some entry → entry.isLink = false ∧
      ∀ n ∈ (d ++ names).getLast?, IsName n ∧
        fs.entryAt? (d ++ names).dropLast = some .directory := by
    intro names entry hentry
    obtain ⟨item, hitem, rfl⟩ := Option.map_eq_some_iff.mp hentry
    exact h _ (mem_of_getSorted? hitem) (List.prefix_append d names)
  have hnamed : ∀ names n, fs.entryAt? (d ++ names ++ [n]) ≠ none →
      IsName n ∧ fs.entryAt? (d ++ names) = some .directory := by
    intro names n hsome
    obtain ⟨entry, hentry⟩ := Option.ne_none_iff_exists'.mp hsome
    rw [List.append_assoc] at hentry
    have hn := (hfits _ _ hentry).2 n (by rw [← List.append_assoc]; exact List.getLast?_concat)
    rwa [← List.append_assoc, List.dropLast_concat] at hn
  refine ⟨fun names target hlink => ?_, fun names n hsome => (hnamed names n hsome).1,
    fun names n hsome => (hnamed names n hsome).2⟩
  exact absurd (hfits _ _ hlink).1 (by simp [Entry.isLink])

theorem isTree_of_forall_items {fs : FileSystem} (h : ∀ e ∈ fs.items, fs.Fits e.1 e.2) :
    fs.IsTree :=
  have hbelow : fs.IsTreeBelow [] := isTreeBelow_of_forall_items fun e he _ => h e he
  ⟨hbelow.plain, hbelow.name, hbelow.parent⟩

/-! ## Through directories -/

/-- Pieces that lead from a location through directories to a directory. -/
def Leads (fs : FileSystem) : Location → List String → Location → Prop
  | l, [], d => fs.entryAt? l = some .directory ∧ l = d
  | l, piece :: rest, d =>
    fs.entryAt? l = some .directory ∧
      if piece = "" ∨ piece = "." then Leads fs l rest d
      else if piece = ".." then Leads fs l.dropLast rest d
      else piece.utf8ByteSize ≤ nameLimit ∧ Leads fs (l ++ [piece]) rest d

/-- A path that leads through directories to a directory. -/
def LeadsTo (fs : FileSystem) (path : String) (d : Location) : Prop :=
  fs.Leads (start path fs.working) (pieces path) d

/-- Whether pieces lead to a directory can be decided. -/
instance decidableLeads (fs : FileSystem) :
    (l : Location) → (ps : List String) → (d : Location) → Decidable (fs.Leads l ps d)
  | l, [], d => inferInstanceAs (Decidable (fs.entryAt? l = some .directory ∧ l = d))
  | l, piece :: rest, d =>
    have := decidableLeads fs l rest d
    have := decidableLeads fs l.dropLast rest d
    have := decidableLeads fs (l ++ [piece]) rest d
    inferInstanceAs (Decidable (fs.entryAt? l = some .directory ∧
      if piece = "" ∨ piece = "." then fs.Leads l rest d
      else if piece = ".." then fs.Leads l.dropLast rest d
      else piece.utf8ByteSize ≤ nameLimit ∧ fs.Leads (l ++ [piece]) rest d))

instance (fs : FileSystem) (path : String) (d : Location) : Decidable (fs.LeadsTo path d) :=
  inferInstanceAs (Decidable (fs.Leads _ _ _))

variable {fs fs' : FileSystem} {l m d : Location} {ps qs : List String}

/-- A way begins in a directory, and goes on where its first piece leads. -/
theorem leads_cons {piece : String} : fs.Leads l (piece :: ps) d ↔
    fs.entryAt? l = some .directory ∧
      if piece = "" ∨ piece = "." then fs.Leads l ps d
      else if piece = ".." then fs.Leads l.dropLast ps d
      else piece.utf8ByteSize ≤ nameLimit ∧ fs.Leads (l ++ [piece]) ps d :=
  Iff.rfl

theorem Leads.directory_left (h : fs.Leads l ps d) : fs.entryAt? l = some .directory := by
  cases ps with
  | nil => exact h.1
  | cons piece rest => exact h.1

/-- The way ends at a directory. -/
theorem Leads.directory_right (h : fs.Leads l ps d) : fs.entryAt? d = some .directory := by
  induction ps generalizing l with
  | nil =>
    obtain ⟨hl, rfl⟩ := h
    exact hl
  | cons piece rest ih =>
    obtain ⟨-, hrest⟩ := h
    split at hrest
    · exact ih hrest
    · split at hrest
      · exact ih hrest
      · exact ih hrest.2

/-- A way goes over a directory in the middle. -/
theorem leads_append : fs.Leads l (ps ++ qs) d ↔ ∃ m, fs.Leads l ps m ∧ fs.Leads m qs d := by
  induction ps generalizing l with
  | nil =>
    constructor
    · intro h
      exact ⟨l, ⟨h.directory_left, rfl⟩, h⟩
    · rintro ⟨m, ⟨-, rfl⟩, h⟩
      exact h
  | cons piece rest ih =>
    simp only [List.cons_append, leads_cons]
    split
    · simp only [ih, and_assoc, exists_and_left]
    · split
      · simp only [ih, and_assoc, exists_and_left]
      · simp only [ih, and_assoc, exists_and_left]

/-- Pieces that lead nowhere lead to where the way is. -/
theorem leads_of_isStay (hps : ∀ p ∈ ps, p = "" ∨ p = ".") :
    fs.Leads l ps d ↔ fs.entryAt? l = some .directory ∧ l = d := by
  induction ps with
  | nil => exact Iff.rfl
  | cons piece rest ih =>
    obtain ⟨hpiece, hrest⟩ := List.forall_mem_cons.mp hps
    rw [leads_cons, if_pos hpiece, ih hrest, and_self_left]

/-- A name leads into the directory of this name. -/
theorem leads_singleton {n : String} (h : IsName n) :
    fs.Leads l [n] d ↔ fs.entryAt? l = some .directory ∧ fs.entryAt? d = some .directory ∧
      d = l ++ [n] := by
  have hstay : ¬ (n = "" ∨ n = ".") := not_or.mpr ⟨h.ne_empty, h.ne_here⟩
  rw [leads_cons, if_neg hstay, if_neg h.ne_up]
  constructor
  · rintro ⟨hl, -, hd, rfl⟩
    exact ⟨hl, hd, rfl⟩
  · rintro ⟨hl, hd, rfl⟩
    exact ⟨hl, h.size, hd, rfl⟩

/-- A way does not change where the directories on it stay. -/
theorem Leads.mono (h : fs.Leads l ps d)
    (hdirs : ∀ l, fs.entryAt? l = some .directory → fs'.entryAt? l = some .directory) :
    fs'.Leads l ps d := by
  induction ps generalizing l with
  | nil => exact ⟨hdirs l h.1, h.2⟩
  | cons piece rest ih =>
    obtain ⟨hl, hrest⟩ := h
    refine ⟨hdirs l hl, ?_⟩
    split at hrest
    · rw [if_pos ‹_›]
      exact ih hrest
    · rw [if_neg ‹_›]
      split at hrest
      · rw [if_pos ‹_›]
        exact ih hrest
      · rw [if_neg ‹_›]
        exact ⟨hrest.1, ih hrest.2⟩

/-! ## Following a path -/

variable {purpose : Purpose} {jump : Location → String → List String → Except IoError Place}

/-- Behind a way through directories the pieces are followed from its end.  When a file is created
the pieces behind it must not all be empty. -/
theorem Leads.followWith_append (h : fs.Leads l ps d) (hqs : purpose = .create → ∃ q ∈ qs, q ≠ "") :
    followWith fs purpose jump l (ps ++ qs) = followWith fs purpose jump d qs := by
  induction ps generalizing l with
  | nil =>
    obtain ⟨-, rfl⟩ := h
    rfl
  | cons piece rest ih =>
    obtain ⟨hl, hrest⟩ := h
    rw [List.cons_append]
    split at hrest
    · rw [followWith_stay hl ‹_›]
      exact ih hrest
    split at hrest
    · rename_i hup
      rw [hup, followWith_up hl]
      exact ih hrest
    obtain ⟨hsize, hrest⟩ := hrest
    have hslash : ¬ (purpose = .create ∧ rest ++ qs ≠ [] ∧ (rest ++ qs).all (· = "") = true) := by
      rintro ⟨hpurpose, -, hall⟩
      obtain ⟨q, hq, hne⟩ := hqs hpurpose
      exact hne (of_decide_eq_true (List.all_eq_true.mp hall q (List.mem_append_right _ hq)))
    rw [followWith_down hl ⟨‹_›, ‹_›, hslash, hsize⟩,
      followName_entry hrest.directory_left (by simp)]
    exact ih hrest

theorem leadsDown_of_isName {n : String} (hn : IsName n) (hps : ∀ p ∈ ps, IsName p) :
    LeadsDown purpose n ps := by
  refine ⟨not_or.mpr ⟨hn.ne_empty, hn.ne_here⟩, hn.ne_up, ?_, hn.size⟩
  rintro ⟨-, hne, hall⟩
  obtain ⟨p, rest, rfl⟩ := List.exists_cons_of_ne_nil hne
  have hp : p = "" := of_decide_eq_true (List.all_eq_true.mp hall p List.mem_cons_self)
  exact (hps p List.mem_cons_self).ne_empty hp

/-- A name that no link has is looked up in the directory that the way is in. -/
theorem followWith_names (hl : fs.entryAt? l = some .directory) {n : String} (hn : IsName n)
    (hps : ∀ p ∈ ps, IsName p) (hlink : ∀ target, fs.entryAt? (l ++ [n]) ≠ some (.link target)) :
    followWith fs purpose jump l (n :: ps) =
      if fs.entryAt? (l ++ [n]) = none then
        if ps = [] then .ok (.free (l ++ [n])) else .error .notFound
      else followWith fs purpose jump (l ++ [n]) ps := by
  rw [followWith_down hl (leadsDown_of_isName hn hps)]
  cases hentry : fs.entryAt? (l ++ [n]) with
  | none =>
    rw [followName, hentry]
    simp [List.isEmpty_iff]
  | some entry =>
    rw [if_neg (Option.some_ne_none _), followName_entry hentry fun target heq => ?_]
    rw [heq] at hentry
    exact hlink target hentry

/-- The same where there are no links. -/
theorem IsTreeBelow.followWith_cons (h : fs.IsTreeBelow l) (hl : fs.entryAt? l = some .directory)
    {n : String} (hn : IsName n) (hps : ∀ p ∈ ps, IsName p) :
    followWith fs purpose jump l (n :: ps) =
      if fs.entryAt? (l ++ [n]) = none then
        if ps = [] then .ok (.free (l ++ [n])) else .error .notFound
      else followWith fs purpose jump (l ++ [n]) ps :=
  followWith_names hl hn hps fun _ => h.plain _ _

/-- Without links a name leads to a free place at the end, or to an entry. -/
theorem IsTree.followName_eq_ok_iff (htree : fs.IsTree) {n : String} {place : Place} :
    followName fs purpose jump l n ps = .ok place ↔
      fs.entryAt? (l ++ [n]) = none ∧ ps = [] ∧ place = .free (l ++ [n]) ∨
      fs.entryAt? (l ++ [n]) ≠ none ∧ followWith fs purpose jump (l ++ [n]) ps = .ok place := by
  rw [FileSystem.followName_eq_ok_iff]
  refine or_congr_right ?_
  constructor
  · rintro (⟨target, hlink, -⟩ | ⟨entry, hentry, -, hon⟩)
    · exact absurd hlink (htree.plain _ target)
    · exact ⟨hentry.trans_ne (Option.some_ne_none _), hon⟩
  · rintro ⟨hsome, hon⟩
    obtain ⟨entry, hentry⟩ := Option.ne_none_iff_exists'.mp hsome
    refine Or.inr ⟨entry, hentry, fun target heq => ?_, hon⟩
    exact htree.plain _ target (hentry.trans (congrArg some heq))

/-- Without links the pieces that are followed to a directory lead through directories. -/
theorem IsTree.leads_of_followWith (htree : fs.IsTree) (hd : fs.entryAt? d = some .directory)
    (h : followWith fs .reach jump l ps = .ok (.taken d)) : fs.Leads l ps d := by
  induction ps generalizing l with
  | nil =>
    obtain rfl : l = d := Place.taken.inj (Except.ok.inj h)
    exact ⟨hd, rfl⟩
  | cons piece rest ih =>
    rw [leads_cons]
    obtain ⟨hl, ⟨hstay, hrest⟩ | ⟨rfl, hrest⟩ | ⟨hdown, hname⟩⟩ := followWith_cons_eq_ok_iff.mp h
    · rw [if_pos hstay]
      exact ⟨hl, ih hrest⟩
    · rw [if_neg (by decide), if_pos rfl]
      exact ⟨hl, ih hrest⟩
    rw [if_neg hdown.stay, if_neg hdown.up]
    rcases htree.followName_eq_ok_iff.mp hname with ⟨-, -, hfree⟩ | ⟨-, hon⟩
    · exact absurd hfree (by simp)
    · exact ⟨hl, hdown.size, ih hon⟩

/-- Everything above an entry is a directory. -/
theorem IsTreeBelow.directory_of_append (hbelow : fs.IsTreeBelow l) {r : Location} (hr : r ≠ [])
    (h : fs.entryAt? (l ++ r) ≠ none) : fs.entryAt? l = some .directory := by
  induction r using List.reverseRecOn with
  | nil => exact absurd rfl hr
  | append_singleton r n ih =>
    rw [← List.append_assoc] at h
    have hparent := hbelow.parent _ _ h
    by_cases hnil : r = []
    · rwa [hnil, List.append_nil] at hparent
    · exact ih hnil (hparent.trans_ne (Option.some_ne_none _))

theorem IsTree.directory_of_append (htree : fs.IsTree) {r : Location} (hr : r ≠ [])
    (h : fs.entryAt? (l ++ r) ≠ none) : fs.entryAt? l = some .directory :=
  (htree.below l).directory_of_append hr h

/-- Names lead from a directory through directories to the location that they name. -/
theorem IsTree.leads_names (htree : fs.IsTree) {names : List String}
    (hnames : ∀ n ∈ names, IsName n) (h : fs.entryAt? (l ++ names) = some .directory) :
    fs.Leads l names (l ++ names) := by
  induction names generalizing l with
  | nil =>
    rw [List.append_nil] at h ⊢
    exact ⟨h, rfl⟩
  | cons n names ih =>
    obtain ⟨hn, hnames⟩ := List.forall_mem_cons.mp hnames
    have hl : fs.entryAt? l = some .directory :=
      htree.directory_of_append (List.cons_ne_nil n names) (h.trans_ne (Option.some_ne_none _))
    rw [List.append_cons] at h ⊢
    have hfirst : fs.Leads l [n] (l ++ [n]) := by
      refine (leads_singleton hn).mpr ⟨hl, ?_, rfl⟩
      by_cases hnil : names = []
      · rwa [hnil, List.append_nil] at h
      · exact htree.directory_of_append hnil (h.trans_ne (Option.some_ne_none _))
    rw [← List.singleton_append, leads_append]
    exact ⟨l ++ [n], hfirst, ih hnames h⟩

/-- **Names are followed from a directory to the entry that they name**, if there is one. -/
theorem IsTreeBelow.followWith_names (hbelow : fs.IsTreeBelow l)
    (hl : fs.entryAt? l = some .directory)
    {names : List String} (hnames : ∀ n ∈ names, IsName n) :
    followWith fs purpose jump l names = .ok (.taken m) ↔
      m = l ++ names ∧ fs.entryAt? m ≠ none := by
  induction names generalizing l with
  | nil =>
    rw [List.append_nil]
    constructor
    · intro h
      obtain rfl : l = m := Place.taken.inj (Except.ok.inj h)
      exact ⟨rfl, hl.trans_ne (Option.some_ne_none _)⟩
    · rintro ⟨rfl, -⟩
      rfl
  | cons n names ih =>
    obtain ⟨hn, hnames⟩ := List.forall_mem_cons.mp hnames
    rw [hbelow.followWith_cons hl hn hnames, List.append_cons l n names]
    -- below something else than a directory there is nothing, and nothing is followed
    by_cases hdir : fs.entryAt? (l ++ [n]) = some .directory
    · rw [if_neg (hdir.trans_ne (Option.some_ne_none _))]
      exact ih (hbelow.append [n]) hdir hnames
    cases names with
    | nil =>
      rw [List.append_nil, if_pos rfl]
      split
      · rename_i hnone
        refine ⟨fun h => absurd (Except.ok.inj h) (by simp), ?_⟩
        rintro ⟨rfl, h⟩
        exact absurd hnone h
      · rename_i hsome
        constructor
        · intro h
          obtain rfl : l ++ [n] = m := Place.taken.inj (Except.ok.inj h)
          exact ⟨rfl, hsome⟩
        · rintro ⟨rfl, -⟩
          rfl
    | cons n' names =>
      have habsent : ¬ (m = l ++ [n] ++ n' :: names ∧ fs.entryAt? m ≠ none) := by
        rintro ⟨rfl, h⟩
        exact hdir ((hbelow.append [n]).directory_of_append (List.cons_ne_nil n' names) h)
      refine iff_of_false ?_ habsent
      split
      · simp
      · exact fun h => hdir (followWith_cons_eq_ok_iff.mp h).1

/-- A free place that is found is a name in a directory. -/
theorem IsTree.exists_of_followWith_free (htree : fs.IsTree) (hps : ∀ p ∈ ps, '/' ∉ p.toList)
    (h : followWith fs purpose jump l ps = .ok (.free m)) :
    ∃ d n, m = d ++ [n] ∧ fs.entryAt? d = some .directory ∧ IsName n ∧ fs.entryAt? m = none := by
  induction ps generalizing l with
  | nil => exact absurd (Except.ok.inj h) (by simp)
  | cons piece rest ih =>
    obtain ⟨hpiece, hrest⟩ := List.forall_mem_cons.mp hps
    obtain ⟨hl, ⟨-, h⟩ | ⟨-, h⟩ | ⟨hdown, hname⟩⟩ := followWith_cons_eq_ok_iff.mp h
    · exact ih hrest h
    · exact ih hrest h
    rcases htree.followName_eq_ok_iff.mp hname with ⟨hnone, -, hm⟩ | ⟨-, h⟩
    · obtain rfl : m = l ++ [piece] := Place.free.inj hm
      obtain ⟨hempty, hhere⟩ := not_or.mp hdown.stay
      exact ⟨l, piece, rfl, hl, ⟨hempty, hhere, hdown.up, hpiece, hdown.size⟩, hnone⟩
    · exact ih hrest h

/-- A free place that names are followed to is the one that they name. -/
theorem IsTree.eq_of_followWith_names (htree : fs.IsTree) (hl : fs.entryAt? l = some .directory)
    {names : List String} (hnames : ∀ n ∈ names, IsName n)
    (h : followWith fs purpose jump l names = .ok (.free m)) : m = l ++ names := by
  induction names generalizing l with
  | nil => exact absurd (Except.ok.inj h) (by simp)
  | cons n names ih =>
    obtain ⟨hn, hnames⟩ := List.forall_mem_cons.mp hnames
    rw [(htree.below l).followWith_cons hl hn hnames] at h
    split at h
    · split at h
      · rename_i hnil
        rw [hnil]
        exact (Place.free.inj (Except.ok.inj h)).symm
      · exact absurd h (by simp)
    · rw [List.append_cons]
      cases names with
      | nil => exact absurd (Except.ok.inj h) (by simp)
      | cons n' names => exact ih (followWith_cons_eq_ok_iff.mp h).1 hnames h

/-- What leads to an entry leads to the same in another tree that has the directories, too, and in
which there is something as well. -/
theorem IsTree.carriesOver (htree : fs.IsTree) (htree' : fs'.IsTree)
    (hdir : ∀ d, fs.entryAt? d = some .directory → fs'.entryAt? d = some .directory)
    (hm : fs'.entryAt? m ≠ none) : CarriesOver fs fs' purpose purpose (.taken m) (.taken m) where
  directory := hdir
  create := id
  done _ := id
  name l n rest _ hrest hname := by
    rcases htree.followName_eq_ok_iff.mp hname with ⟨-, -, hfree⟩ | ⟨-, hon⟩
    · exact absurd hfree (by simp)
    -- there is something at the next location: it is the last one, or a directory
    have hentry : fs'.entryAt? (l ++ [n]) ≠ none := by
      cases rest with
      | nil =>
        obtain rfl : l ++ [n] = m := Place.taken.inj (Except.ok.inj hon)
        exact hm
      | cons next rest =>
        exact (hdir _ (followWith_cons_eq_ok_iff.mp hon).1).trans_ne (Option.some_ne_none _)
    exact htree'.followName_eq_ok_iff.mpr (Or.inr ⟨hentry, hrest hon⟩)

/-! ## What paths stand for -/

/-- The pieces of a path that names can follow lead where the path does. -/
theorem leadsTo_iff_leads_stem {path : String} : fs.LeadsTo path d ↔
    fs.Leads (start path fs.working) ((stem path).map String.ofList) d := by
  rw [LeadsTo, pieces]
  rcases splitAt_eq_stem path with h | h
  · have hstay : ∀ p ∈ [String.ofList []], p = "" ∨ p = "." := by decide
    rw [h, List.map_append, leads_append]
    simp only [List.map_cons, List.map_nil, leads_of_isStay hstay]
    constructor
    · rintro ⟨m, hm, -, rfl⟩
      exact hm
    · intro hd
      exact ⟨d, hd, hd.directory_right, rfl⟩
  · rw [h]

/-- Names that are joined to a path begin where it does. -/
theorem start_foldl_join (path : String) {names : List String} (hnames : ∀ n ∈ names, IsName n) :
    start (names.foldl join path) l = start path l := by
  induction names generalizing path with
  | nil => rfl
  | cons n names ih =>
    obtain ⟨hn, hnames⟩ := List.forall_mem_cons.mp hnames
    rw [List.foldl_cons, ih _ hnames, start, start, isAbsolute_join path hn.isPiece]

theorem pieces_foldl_join (path : String) {names : List String} (hne : names ≠ [])
    (hnames : ∀ n ∈ names, IsName n) :
    pieces (names.foldl join path) = (stem path).map String.ofList ++ names := by
  obtain ⟨names, n, rfl⟩ := (List.eq_nil_or_concat' names).resolve_left hne
  rw [List.forall_mem_append, List.forall_mem_singleton] at hnames
  rw [pieces, List.foldl_concat, Path.splitAt_join _ hnames.2.isPiece,
    stem_foldl_join path hnames.1]
  simp

/-- Following a path is following its pieces, with some rule for links. -/
theorem exists_follow_eq (fs : FileSystem) (purpose : Purpose) (n : Nat) :
    ∃ jump, fs.follow purpose n = followWith fs purpose jump := by
  cases n with
  | zero => exact ⟨_, rfl⟩
  | succ n => exact ⟨_, rfl⟩

/-- A path leads to a directory, unless a file is to be created. -/
theorem LeadsTo.resolve {path : String} (h : fs.LeadsTo path d) (hfault : pathFault? path = none)
    (hpurpose : purpose ≠ .create) : fs.resolve purpose path = .ok (.taken d) := by
  obtain ⟨jump, hjump⟩ := fs.exists_follow_eq purpose linkLimit
  have hfollow : followWith fs purpose jump (start path fs.working) (pieces path ++ []) =
      followWith fs purpose jump d [] :=
    Leads.followWith_append h fun hcreate => absurd hcreate hpurpose
  rw [List.append_nil] at hfollow
  rw [FileSystem.resolve, hfault, hjump]
  exact hfollow

/-- Names that are joined to a path to a directory are followed from there. -/
theorem LeadsTo.exists_resolve_foldl_join {path : String} (h : fs.LeadsTo path d)
    {names : List String} (hne : names ≠ []) (hnames : ∀ n ∈ names, IsName n)
    (hfault : pathFault? (names.foldl join path) = none) :
    ∃ jump, fs.resolve purpose (names.foldl join path) = followWith fs purpose jump d names := by
  obtain ⟨jump, hjump⟩ := fs.exists_follow_eq purpose linkLimit
  refine ⟨jump, ?_⟩
  rw [FileSystem.resolve, hfault, hjump]
  show followWith fs purpose jump (start (names.foldl join path) fs.working)
    (pieces (names.foldl join path)) = _
  rw [start_foldl_join path hnames, pieces_foldl_join path hne hnames]
  obtain ⟨n, rest, rfl⟩ := List.exists_cons_of_ne_nil hne
  exact (leadsTo_iff_leads_stem.mp h).followWith_append fun _ =>
    ⟨n, List.mem_cons_self, (hnames n List.mem_cons_self).ne_empty⟩

/-- A path stands for a location if it leads to an entry there. -/
theorem locate_eq_ok_iff {path : String} :
    fs.locate path = .ok l ↔ fs.resolve .reach path = .ok (.taken l) := by
  rw [locate]
  cases fs.resolve .reach path with
  | error e => simp
  | ok place => cases place <;> simp

/-- **A path stands for the same location in another tree** that has the directories, too, and in
which there is something as well. -/
theorem IsTree.locate_of_directory (htree : fs.IsTree) (htree' : fs'.IsTree)
    (hworking : fs'.working = fs.working)
    (hdir : ∀ d, fs.entryAt? d = some .directory → fs'.entryAt? d = some .directory)
    (hm : fs'.entryAt? m ≠ none) {path : String} (h : fs.locate path = .ok m) :
    fs'.locate path = .ok m := by
  rw [locate_eq_ok_iff] at h ⊢
  exact (htree.carriesOver htree' hdir hm).resolve hworking h

/-- What a path stands for is what is where it leads. -/
theorem item_eq_ok_iff {path : String} {i : Item} :
    fs.item path = .ok i ↔ ∃ l, fs.locate path = .ok l ∧ fs.itemAt? l = some i := by
  rw [item]
  cases fs.locate path with
  | error e => simp
  | ok l => cases h : fs.itemAt? l <;> simp [h]

/-- What a path stands for if all that it can lead to is at one location. -/
theorem item_eq_ok_iff_of_locate {path : String} {able : Prop} {i : Item}
    (h : ∀ l, fs.locate path = .ok l ↔ able ∧ l = d ∧ fs.entryAt? l ≠ none) :
    fs.item path = .ok i ↔ able ∧ fs.itemAt? d = some i := by
  rw [item_eq_ok_iff]
  simp only [h]
  constructor
  · rintro ⟨l, ⟨hable, rfl, -⟩, hi⟩
    exact ⟨hable, hi⟩
  · rintro ⟨hable, hi⟩
    exact ⟨d, ⟨hable, rfl, by rw [entryAt?, hi]; exact Option.some_ne_none _⟩, hi⟩

theorem entryAt?_eq_some_iff {entry : Entry} :
    fs.entryAt? l = some entry ↔ ∃ time, fs.itemAt? l = some ⟨entry, time⟩ := by
  rw [entryAt?, Option.map_eq_some_iff]
  constructor
  · rintro ⟨⟨entry, time⟩, h, rfl⟩
    exact ⟨time, h⟩
  · rintro ⟨time, h⟩
    exact ⟨_, h, rfl⟩

/-- A path stands for something if it leads to an entry. -/
theorem holds_iff {path : String} :
    fs.holds path = true ↔ ∃ l, fs.locate path = .ok l ∧ fs.entryAt? l ≠ none := by
  have hok : fs.holds path = true ↔ ∃ i, fs.item path = .ok i := by
    rw [holds]
    cases fs.item path <;> simp [Except.isOk, Except.toBool]
  have hsome : ∀ l, fs.entryAt? l ≠ none ↔ ∃ i, fs.itemAt? l = some i := by
    intro l
    rw [entryAt?, ne_eq, Option.map_eq_none_iff, ← ne_eq, Option.ne_none_iff_exists']
  rw [hok, exists_congr fun i => item_eq_ok_iff, exists_comm]
  simp only [hsome, exists_and_left]

/-- A path stands for a file if it stands for an item that is one. -/
theorem isFile_iff {path : String} :
    fs.isFile path = true ↔ ∃ content time, fs.item path = .ok ⟨.file content, time⟩ := by
  rw [isFile]
  split
  · rename_i content time h
    exact iff_of_true rfl ⟨content, time, h⟩
  · rename_i h
    refine iff_of_false Bool.false_ne_true ?_
    rintro ⟨content, time, hitem⟩
    exact h content time hitem

/-- A text is read at a path that stands for a file that holds it. -/
theorem readText_eq_ok_iff {path s : String} :
    fs.readText path = .ok s ↔ ∃ time, fs.item path = .ok ⟨.file (.text s), time⟩ := by
  rw [readText]
  split
  · rename_i text time h
    simp [h]
  · rename_i bytes time h
    simp [h]
  · rename_i item hbinary htext h
    refine iff_of_false (by simp) ?_
    rintro ⟨time, hitem⟩
    obtain rfl : item = _ := Except.ok.inj (h.symm.trans hitem)
    exact hbinary s time rfl
  · rename_i e h
    simp [h]

theorem holds_of_readText {path s : String} (h : fs.readText path = .ok s) :
    fs.holds path = true := by
  obtain ⟨time, hitem⟩ := readText_eq_ok_iff.mp h
  rw [holds, hitem]
  rfl

/-- A path whose time can be told, if there is one, is a path. -/
theorem pathFault?_eq_none_of_modified {path : String} (hne : path ≠ "") {time : Option Int}
    (h : fs.modified path = .ok time) : pathFault? path = none := by
  cases hfault : pathFault? path with
  | none => rfl
  | some e =>
    have hitem : fs.item path = .error e := by rw [item, locate, resolve, hfault]
    have he : e ≠ .notFound := by
      rintro rfl
      have hempty : path.isEmpty = false := by
        rw [Bool.eq_false_iff, ne_eq, String.isEmpty_iff]
        exact hne
      rw [pathFault?, hempty, if_neg Bool.false_ne_true] at hfault
      split at hfault
      · exact absurd hfault (by simp)
      · split at hfault <;> exact absurd hfault (by simp)
    rw [modified, hitem] at h
    cases e <;> simp at h he

theorem LeadsTo.isDirectory {path : String} (h : fs.LeadsTo path d)
    (hfault : pathFault? path = none) : fs.isDirectory path = true := by
  obtain ⟨time, hitem⟩ := entryAt?_eq_some_iff.mp h.directory_right
  have hpath : fs.item path = .ok ⟨.directory, time⟩ :=
    item_eq_ok_iff.mpr ⟨d, locate_eq_ok_iff.mpr (h.resolve hfault (by decide)), hitem⟩
  rw [FileSystem.isDirectory, hpath]

/-- A path stands for a directory if there is one at the location that it stands for. -/
theorem isDirectory_iff_of_locate {path : String} (hpath : fs.locate path = .ok d) :
    fs.isDirectory path = true ↔ fs.entryAt? d = some .directory := by
  have hitem : ∀ i, fs.item path = .ok i ↔ fs.itemAt? d = some i := by
    intro i
    rw [item_eq_ok_iff]
    constructor
    · rintro ⟨l, hl, hi⟩
      obtain rfl := Except.ok.inj (hl.symm.trans hpath)
      exact hi
    · exact fun hi => ⟨d, hpath, hi⟩
  rw [FileSystem.isDirectory, entryAt?_eq_some_iff]
  simp only [← hitem]
  split
  · rename_i time h
    exact iff_of_true rfl ⟨time, h⟩
  · rename_i h
    exact iff_of_false Bool.false_ne_true fun ⟨time, hdir⟩ => h time hdir

/-- Without links a path that stands for a directory leads to it. -/
theorem IsTree.isDirectory_iff (htree : fs.IsTree) {path : String} :
    fs.isDirectory path = true ↔ pathFault? path = none ∧ ∃ d, fs.LeadsTo path d := by
  constructor
  · intro h
    rw [FileSystem.isDirectory] at h
    split at h
    · rename_i time hitem
      obtain ⟨d, hlocate, hd⟩ := item_eq_ok_iff.mp hitem
      have hresolve := locate_eq_ok_iff.mp hlocate
      rw [resolve] at hresolve
      split at hresolve
      · exact absurd hresolve (by simp)
      obtain ⟨jump, hjump⟩ := fs.exists_follow_eq .reach linkLimit
      rw [hjump] at hresolve
      exact ⟨‹_›, d, htree.leads_of_followWith (entryAt?_eq_some_iff.mpr ⟨time, hd⟩) hresolve⟩
    · exact absurd h Bool.false_ne_true
  · rintro ⟨hfault, d, hd⟩
    exact hd.isDirectory hfault

/-- **Names that are joined to a path to a directory stand for what is at the location of the
directory followed by the names.** -/
theorem IsTree.locate_foldl_join_eq_ok_iff (htree : fs.IsTree) {path : String}
    (h : fs.LeadsTo path d) {names : List String} (hne : names ≠ [])
    (hnames : ∀ n ∈ names, IsName n) :
    fs.locate (names.foldl join path) = .ok l ↔
      pathFault? (names.foldl join path) = none ∧ l = d ++ names ∧ fs.entryAt? l ≠ none := by
  rw [locate_eq_ok_iff]
  cases hfault : pathFault? (names.foldl join path) with
  | some e =>
    rw [resolve, hfault]
    simp
  | none =>
    obtain ⟨jump, hresolve⟩ := h.exists_resolve_foldl_join hne hnames hfault
    rw [hresolve, (htree.below d).followWith_names h.directory_right hnames]
    simp

theorem IsTree.item_foldl_join_eq_ok_iff (htree : fs.IsTree) {path : String}
    (h : fs.LeadsTo path d) {names : List String} (hne : names ≠ [])
    (hnames : ∀ n ∈ names, IsName n) {i : Item} : fs.item (names.foldl join path) = .ok i ↔
      pathFault? (names.foldl join path) = none ∧ fs.itemAt? (d ++ names) = some i :=
  item_eq_ok_iff_of_locate fun _ => htree.locate_foldl_join_eq_ok_iff h hne hnames

/-- A name that is joined to a path to a directory is taken or free there. -/
theorem IsTree.resolve_join (htree : fs.IsTree) {path n : String} (h : fs.LeadsTo path d)
    (hn : IsName n) (hfault : pathFault? (join path n) = none) :
    fs.resolve purpose (join path n) =
      .ok (if fs.entryAt? (d ++ [n]) = none then .free (d ++ [n]) else .taken (d ++ [n])) := by
  have hnames : ∀ m ∈ [n], IsName m := List.forall_mem_singleton.mpr hn
  obtain ⟨jump, hresolve⟩ := h.exists_resolve_foldl_join (List.cons_ne_nil n []) hnames hfault
  rw [show join path n = [n].foldl join path from rfl, hresolve,
    (htree.below d).followWith_cons h.directory_right hn (List.forall_mem_nil _), if_pos rfl]
  split <;> rfl

/-- The item that a name that is joined to a path stands for. -/
theorem IsTree.item_join (htree : fs.IsTree) {path n : String} (h : fs.LeadsTo path d)
    (hn : IsName n) (hfault : pathFault? (join path n) = none) :
    fs.item (join path n) = match fs.itemAt? (d ++ [n]) with
      | some i => .ok i
      | none => .error .notFound := by
  rw [item, locate, htree.resolve_join h hn hfault]
  cases hi : fs.itemAt? (d ++ [n]) <;> simp [entryAt?, hi]

/-- Names that are joined to a path to a directory lead to the directory that they name. -/
theorem IsTree.leadsTo_foldl_join (htree : fs.IsTree) {path : String} (h : fs.LeadsTo path d)
    {names : List String} (hnames : ∀ n ∈ names, IsName n)
    (hdir : fs.entryAt? (d ++ names) = some .directory) :
    fs.LeadsTo (names.foldl join path) (d ++ names) := by
  have hmap : (names.map String.toList).map String.ofList = names := by simp
  rw [leadsTo_iff_leads_stem, start_foldl_join path hnames, stem_foldl_join path hnames,
    List.map_append, hmap, leads_append]
  exact ⟨d, leadsTo_iff_leads_stem.mp h, htree.leads_names hnames hdir⟩

/-- A name that is joined to a path to a directory leads to the directory of this name. -/
theorem IsTree.leadsTo_join (htree : fs.IsTree) {path n : String} (h : fs.LeadsTo path d)
    (hn : IsName n) (hdir : fs.entryAt? (d ++ [n]) = some .directory) :
    fs.LeadsTo (join path n) (d ++ [n]) := by
  have hleads := htree.leadsTo_foldl_join h (List.forall_mem_singleton.mpr hn) hdir
  rwa [List.foldl_cons, List.foldl_nil] at hleads

end FileSystem

end ComponentStories
