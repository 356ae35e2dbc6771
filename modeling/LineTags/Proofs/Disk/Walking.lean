import LineTags.Project
import LineTags.Proofs.Minting.LineGroups
import Mathlib.Data.List.TakeWhile

/-!
# Normal paths lead to the same place

A normal form works on the text of a path alone, and the disk walks the names of a path one by one. On a disk without links the two agree: where a walk arrives at all, it arrives at the names that the normal form keeps. So a script that was read under the path a user gave is found again under the path that saving uses, which is made of the folder of the normal form and the name of the script.
-/

namespace LineTags

open Text

/-- A name that an entry can have. -/
structure ProperName (name : Text) : Prop where
  nonempty : name ≠ []
  notDot : name ≠ ['.']
  notUp : name ≠ ['.', '.']
  noSlash : '/' ∉ name
  noNull : '\x00' ∉ name
  short : name.toUtf8.length ≤ Disk.longestName

/-- The working folder exists, with all folders above it. -/
structure Workplace.Sound (w : Workplace) : Prop where
  names : ∀ name ∈ w.folder, ProperName name
  folders : ∀ k, w.disk.entry? (w.folder.take k) = some .folder

/-- A workplace whose working folder stands right below the root. -/
theorem Workplace.sound_of_singleton {w : Workplace} {name : Text} (hfolder : w.folder = [name]) (hname : ProperName name)
    (hentry : w.disk.entry? [name] = some .folder) : w.Sound where
  names := fun other hother => by
    rw [hfolder, List.mem_singleton] at hother
    rwa [hother]
  folders := fun k => by
    rw [hfolder]
    cases k with
    | zero => rfl
    | succ k => rwa [List.take_succ_cons, List.take_nil]

namespace Disk

variable {d : Disk}

/-! ### The steps of a walk -/

/-- A name that leads to an entry. -/
structure Enters (name : Text) : Prop where
  nonempty : name ≠ []
  notDot : name ≠ ['.']
  notUp : name ≠ ['.', '.']
  short : name.toUtf8.length ≤ longestName

/-- A walk that arrives. It stays where it is for no name and for a dot, goes up for two dots, and goes down for any other name, into a folder unless only slashes follow. -/
inductive Walks (d : Disk) : List Text → List Text → List Text × Bool → Prop
  | done {place : List Text} : Walks d place [] (place, true)
  | stay {place names : List Text} {name : Text} {r : List Text × Bool} (hskip : name = [] ∨ name = ['.']) :
    Walks d place names r → Walks d place (name :: names) r
  | up {place names : List Text} {r : List Text × Bool} :
    Walks d place.dropLast names r → Walks d place (['.', '.'] :: names) r
  | last {place names : List Text} {name : Text} (hname : Enters name) (hend : names.all List.isEmpty = true) :
    Walks d place (name :: names) (place ++ [name], !names.isEmpty)
  | into {place names : List Text} {name : Text} {r : List Text × Bool} (hname : Enters name)
      (hmore : ¬ names.all List.isEmpty = true) (hfolder : d.entry? (place ++ [name]) = some .folder) :
    Walks d (place ++ [name]) names r → Walks d place (name :: names) r

theorem walk_of_enters {name : Text} (hname : Enters name) (place names : List Text) :
    d.walk place (name :: names) =
      if names.isEmpty then .ok (place ++ [name], false)
      else if names.all List.isEmpty then .ok (place ++ [name], true)
      else
        match d.entry? (place ++ [name]) with
        | some .folder => d.walk (place ++ [name]) names
        | some (.file _) => .error .notFolder
        | none => .error .missing := by
  have hskip : ¬(name = [] ∨ name = ['.']) := fun h => h.elim hname.nonempty hname.notDot
  rw [walk]
  exact (if_neg hskip).trans ((if_neg hname.notUp).trans (if_neg (Nat.not_lt_of_le hname.short)))

theorem walk_eq_ok_iff {place names : List Text} {r : List Text × Bool} : d.walk place names = .ok r ↔ Walks d place names r := by
  constructor
  · intro hwalk
    induction names generalizing place with
    | nil =>
      cases hwalk
      exact .done
    | cons name names ih =>
      by_cases hskip : name = [] ∨ name = ['.']
      · rw [walk, if_pos hskip] at hwalk
        exact .stay hskip (ih hwalk)
      by_cases hup : name = ['.', '.']
      · subst hup
        rw [walk, if_neg hskip, if_pos rfl] at hwalk
        exact .up (ih hwalk)
      by_cases hlong : longestName < name.toUtf8.length
      · rw [walk, if_neg hskip, if_neg hup, if_pos hlong] at hwalk
        cases hwalk
      have hname : Enters name := ⟨fun h => hskip (.inl h), fun h => hskip (.inr h), hup, Nat.le_of_not_lt hlong⟩
      rw [walk_of_enters hname] at hwalk
      by_cases hend : names.all List.isEmpty = true
      · have hlast : r = (place ++ [name], !names.isEmpty) := by
          rw [if_pos hend] at hwalk
          cases hempty : names.isEmpty <;> rw [hempty] at hwalk <;> cases hwalk <;> rfl
        rw [hlast]
        exact .last hname hend
      · rw [if_neg (fun hempty => hend (by rw [List.isEmpty_iff.1 hempty]; rfl)), if_neg hend] at hwalk
        split at hwalk
        · next hfolder => exact .into hname hend hfolder (ih hwalk)
        · cases hwalk
        · cases hwalk
  · intro h
    induction h with
    | done => rfl
    | stay hskip _ ih => rwa [walk, if_pos hskip]
    | up _ ih => rwa [walk, if_neg (by decide), if_pos rfl]
    | @last place names name hname hend =>
      rw [walk_of_enters hname, if_pos hend]
      cases names.isEmpty <;> rfl
    | @into place names name r hname hmore hfolder _ ih =>
      rw [walk_of_enters hname, if_neg (fun hempty => hmore (by rw [List.isEmpty_iff.1 hempty]; rfl)), if_neg hmore, hfolder]
      exact ih

/-! ### One name of the normal form -/

theorem walk_of_skipped {name : Text} (hskip : name = [] ∨ name = ['.']) (walked : List Text) :
    Path.walk true walked name = walked :=
  if_pos hskip

theorem walk_reverse_up {start : List Text} (hstart : ∀ name ∈ start, ProperName name) :
    Path.walk true start.reverse ['.', '.'] = start.dropLast.reverse := by
  unfold Path.walk
  rw [if_neg (by decide), if_neg (not_not_intro rfl)]
  cases hreverse : start.reverse with
  | nil =>
    rw [List.reverse_eq_nil_iff] at hreverse
    rw [hreverse]
    rfl
  | cons top others =>
    have hmem : top ∈ start := by
      rw [← List.mem_reverse, hreverse]
      exact List.mem_cons_self
    rw [← List.tail_reverse, hreverse]
    exact if_neg (hstart top hmem).notUp

theorem walk_reverse_proper {name : Text} (hname : ProperName name) (start : List Text) :
    Path.walk true start.reverse name = (start ++ [name]).reverse := by
  unfold Path.walk
  rw [if_neg (fun h => h.elim hname.nonempty hname.notDot), if_pos hname.notUp, List.reverse_append]
  rfl

theorem foldl_walk_of_empty {names : List Text} (hnames : names.all List.isEmpty = true) (walked : List Text) :
    names.foldl (Path.walk true) walked = walked := by
  induction names with
  | nil => rfl
  | cons name names ih =>
    rw [List.all_cons, Bool.and_eq_true] at hnames
    rw [List.foldl_cons, walk_of_skipped (.inl (List.isEmpty_iff.1 hnames.1)), ih hnames.2]

/-! ### The walk -/

/-- A place can be walked to from the root, except that its last name may be missing or a file. -/
def Open (d : Disk) (place : List Text) : Prop := ∀ k < place.length, d.entry? (place.take k) = some .folder

/-- A walk arrives at the names that the normal form keeps. -/
structure Arrives (d : Disk) (start names place : List Text) (wantsFolder : Bool) : Prop where
  proper : ∀ name ∈ place, ProperName name
  normal : names.foldl (Path.walk true) start.reverse = place.reverse
  reachable : d.Open place
  last : wantsFolder = false → place.getLast? = names.getLast?

theorem Arrives.cons {start start' names place : List Text} {name : Text} {wantsFolder : Bool}
    (h : Arrives d start' names place wantsFolder) (hstep : Path.walk true start.reverse name = start'.reverse)
    (hrest : wantsFolder = false → names ≠ []) : Arrives d start (name :: names) place wantsFolder where
  proper := h.proper
  normal := by rw [List.foldl_cons, hstep, h.normal]
  reachable := h.reachable
  last := fun hwants => by
    obtain ⟨next, names', rfl⟩ := List.exists_cons_of_ne_nil (hrest hwants)
    rw [h.last hwants, List.getLast?_cons_cons]

/-- A walk that does not ask for a folder has a name left. -/
theorem Walks.ne_nil {start names : List Text} {r : List Text × Bool} (h : Walks d start names r) (hwants : r.2 = false) :
    names ≠ [] := by
  rintro rfl
  cases h
  cases hwants

theorem open_append {start : List Text} (hfolders : ∀ k, d.entry? (start.take k) = some .folder) (name : Text) :
    d.Open (start ++ [name]) := by
  intro k hk
  rw [List.length_append, List.length_singleton] at hk
  rw [List.take_append_of_le_length (by omega)]
  exact hfolders k

theorem Walks.arrives {start names : List Text} {r : List Text × Bool} (hwalk : Walks d start names r)
    (hstart : ∀ name ∈ start, ProperName name) (hnames : ∀ name ∈ names, '/' ∉ name ∧ '\x00' ∉ name)
    (hfolders : ∀ k, d.entry? (start.take k) = some .folder) : Arrives d start names r.1 r.2 := by
  have hpushed : ∀ {start : List Text} {name : Text}, (∀ n ∈ start, ProperName n) → Enters name →
      '/' ∉ name ∧ '\x00' ∉ name → ProperName name ∧ ∀ n ∈ start ++ [name], ProperName n := by
    intro start name hstart henters hname
    have hproper : ProperName name := ⟨henters.nonempty, henters.notDot, henters.notUp, hname.1, hname.2, henters.short⟩
    refine ⟨hproper, fun n hn => ?_⟩
    rcases List.mem_append.1 hn with hn | hn
    · exact hstart n hn
    · rwa [List.mem_singleton.1 hn]
  induction hwalk with
  | done => exact ⟨hstart, rfl, fun k _ => hfolders k, fun h => by cases h⟩
  | @stay start names name r hskip hwalk ih =>
    exact (ih hstart (fun n hn => hnames n (List.mem_cons_of_mem _ hn)) hfolders).cons (walk_of_skipped hskip _) hwalk.ne_nil
  | @up start names r hwalk ih =>
    refine (ih (fun n hn => hstart n ((List.dropLast_subset start) hn)) (fun n hn => hnames n (List.mem_cons_of_mem _ hn))
      fun k => ?_).cons (walk_reverse_up hstart) hwalk.ne_nil
    rw [List.dropLast_eq_take, List.take_take]
    exact hfolders _
  | @last start names name henters hend =>
    obtain ⟨hname, hall⟩ := hpushed hstart henters (hnames name List.mem_cons_self)
    refine ⟨hall, ?_, open_append hfolders name, fun h => ?_⟩
    · rw [List.foldl_cons, walk_reverse_proper hname, foldl_walk_of_empty hend]
    · rw [Bool.not_eq_false', List.isEmpty_iff] at h
      rw [h]
      exact List.getLast?_concat
  | @into start names name r henters hmore hfolder hwalk ih =>
    obtain ⟨hname, hall⟩ := hpushed hstart henters (hnames name List.mem_cons_self)
    refine (ih hall (fun n hn => hnames n (List.mem_cons_of_mem _ hn)) fun k => ?_).cons (walk_reverse_proper hname start)
      hwalk.ne_nil
    by_cases hk : k < (start ++ [name]).length
    · exact open_append hfolders name k hk
    · rw [List.take_of_length_le (Nat.le_of_not_lt hk)]
      exact hfolder

theorem enters_of_proper {name : Text} (h : ProperName name) : Enters name := ⟨h.nonempty, h.notDot, h.notUp, h.short⟩

/-- Proper names are walked one after the other, as long as there are folders. -/
theorem walk_of_proper {start names : List Text} (hne : names ≠ []) (hnames : ∀ name ∈ names, ProperName name)
    (hfolders : ∀ k < names.length, d.entry? (start ++ names.take k) = some .folder) :
    d.walk start names = .ok (start ++ names, false) := by
  rw [walk_eq_ok_iff]
  induction names generalizing start with
  | nil => exact absurd rfl hne
  | cons name names ih =>
    have henters := enters_of_proper (hnames name List.mem_cons_self)
    cases names with
    | nil => exact .last henters rfl
    | cons next names =>
      have hnext : next ≠ [] := (hnames next (List.mem_cons_of_mem _ List.mem_cons_self)).nonempty
      have hentry : d.entry? (start ++ [name]) = some .folder := by
        have := hfolders 1 (by simp)
        rwa [List.take_succ_cons, List.take_zero] at this
      have hbehind : Walks d (start ++ [name]) (next :: names) (start ++ [name] ++ next :: names, false) := by
        refine ih (List.cons_ne_nil _ _) (fun n hn => hnames n (List.mem_cons_of_mem _ hn)) fun k hk => ?_
        have := hfolders (k + 1) (by simpa using hk)
        rwa [List.take_succ_cons, ← List.singleton_append, ← List.append_assoc] at this
      rw [List.append_assoc] at hbehind
      exact .into henters (by simp [hnext]) hentry hbehind

end Disk

namespace Path

/-! ### The text of a path -/

theorem slash_not_mem_fileName (p : Text) : '/' ∉ fileName p := by
  intro hmem
  have := List.mem_takeWhile_imp (List.mem_reverse.1 hmem)
  simp at this

/-- A path is its folder part, which is empty or ends in a slash, with the name behind. -/
theorem exists_append_fileName (p : Text) : p = fileName p ∨ ∃ s, p = s ++ '/' :: fileName p := by
  have hp : p = (p.reverse.dropWhile (· != '/')).reverse ++ fileName p := by
    rw [fileName, ← List.reverse_append, List.takeWhile_append_dropWhile, List.reverse_reverse]
  have hhead := List.head?_dropWhile_not (· != '/') p.reverse
  cases hdrop : p.reverse.dropWhile (· != '/') with
  | nil =>
    rw [hdrop] at hp
    exact .inl hp
  | cons c r =>
    rw [hdrop, List.head?_cons] at hhead
    obtain rfl : c = '/' := by simpa using hhead
    rw [hdrop, List.reverse_cons, List.append_assoc] at hp
    exact .inr ⟨_, hp⟩

theorem getLast?_split (p : Text) : (split '/' p).getLast? = some (fileName p) := by
  have hlast : split '/' (fileName p) = [fileName p] := split_of_not_mem (slash_not_mem_fileName p)
  obtain hp | ⟨s, hp⟩ := exists_append_fileName p
  · rw [← hp] at hlast
    rw [hlast]
    exact congrArg some hp
  · have hsplit := split_append_sep '/' s (fileName p)
    rw [← hp, hlast] at hsplit
    rw [hsplit, List.getLast?_concat]

/-- The folder of a path is what stands before the last slash. -/
theorem folder_append {t : Text} (ht : '/' ∉ t) (s : Text) :
    folder (s ++ '/' :: t) = if (s ++ ['/']).all (· == '/') then s ++ ['/'] else
      (s.reverse.dropWhile (· == '/')).reverse := by
  have hrun : ∀ c ∈ t.reverse, (c != '/') = true := by
    intro c hc
    rw [bne_iff_ne]
    rintro rfl
    exact ht (List.mem_reverse.1 hc)
  have hhead : ((s ++ '/' :: t).reverse.dropWhile (· != '/')).reverse = s ++ ['/'] := by
    rw [List.reverse_append, List.reverse_cons, List.append_assoc, List.dropWhile_append_of_pos hrun]
    simp
  rw [folder, hhead]
  simp

theorem join_concat (sep : Text) {pieces : List Text} (hne : pieces ≠ []) (last : Text) :
    join sep (pieces ++ [last]) = join sep pieces ++ sep ++ last := by
  induction pieces with
  | nil => exact absurd rfl hne
  | cons piece pieces ih =>
    cases pieces with
    | nil => rfl
    | cons next pieces =>
      have hrest := ih (List.cons_ne_nil _ _)
      show piece ++ sep ++ join sep (next :: pieces ++ [last]) = piece ++ sep ++ join sep (next :: pieces) ++ sep ++ last
      rw [hrest]
      simp only [List.append_assoc]

/-- The last character of proper names that were joined is none but the last of the last name. -/
theorem join_concat_ne_slash {names : List Text} (hnames : ∀ name ∈ names, ProperName name) (hne : names ≠ []) :
    ∃ t c, join ['/'] names = t ++ [c] ∧ c ≠ '/' := by
  obtain ⟨init, last, rfl⟩ := List.eq_nil_or_concat' names |>.resolve_left hne
  have hlast := hnames last (List.mem_append_right _ (List.mem_singleton_self last))
  obtain ⟨t, c, rfl⟩ := List.eq_nil_or_concat' last |>.resolve_left hlast.nonempty
  have hc : c ≠ '/' := by
    rintro rfl
    exact hlast.noSlash (List.mem_append_right _ (List.mem_singleton_self _))
  cases init with
  | nil => exact ⟨t, c, rfl, hc⟩
  | cons first init =>
    rw [join_concat ['/'] (List.cons_ne_nil _ _), ← List.append_assoc]
    exact ⟨_, c, rfl, hc⟩

/-- A normal path from the root is the folder of the path with its name. -/
theorem append_folder {root : Text} (hroot : root = ['/'] ∨ root = ['/', '/']) {dirs : List Text} {last : Text}
    (hnames : ∀ name ∈ dirs ++ [last], ProperName name) :
    append (folder (root ++ join ['/'] (dirs ++ [last]))) last = root ++ join ['/'] (dirs ++ [last]) := by
  have hlast := hnames last (List.mem_append_right _ (List.mem_singleton_self last))
  have hhead : last.head? ≠ some '/' := fun h => hlast.noSlash (List.mem_of_mem_head? h)
  have happend : ∀ f : Text, f.getLast? = some '/' → append f last = f ++ last := by
    intro f hf
    rw [append, if_neg hhead, if_pos]
    simp [hf]
  cases dirs with
  | nil =>
    have hfolder : folder (root ++ last) = root := by
      rcases hroot with rfl | rfl
      · rw [show ['/'] ++ last = [] ++ '/' :: last from rfl, folder_append hlast.noSlash]
        rfl
      · rw [show ['/', '/'] ++ last = ['/'] ++ '/' :: last from rfl, folder_append hlast.noSlash]
        rfl
    show append (folder (root ++ last)) last = root ++ last
    rw [hfolder]
    exact happend root (by rcases hroot with rfl | rfl <;> rfl)
  | cons first dirs =>
    obtain ⟨t, c, ht, hc⟩ := join_concat_ne_slash
      (fun n hn => hnames n (List.mem_append_left _ hn)) (List.cons_ne_nil first dirs)
    have hjoin : root ++ join ['/'] (first :: dirs ++ [last]) = (root ++ t ++ [c]) ++ '/' :: last := by
      rw [join_concat ['/'] (List.cons_ne_nil _ _), ht]
      simp
    have hfolder : folder ((root ++ t ++ [c]) ++ '/' :: last) = root ++ t ++ [c] := by
      rw [folder_append hlast.noSlash, if_neg (by simp [hc])]
      simp [hc]
    rw [hjoin, hfolder, append, if_neg hhead, if_neg (by simp [hc])]

end Path

/-! ### A path that a user gave -/

namespace Disk

theorem exists_walk_of_locate {d : Disk} {workingFolder place : List Text} {path : Text} {wantsFolder : Bool}
    (h : d.locate workingFolder path = .ok (place, wantsFolder)) :
    '\x00' ∉ path ∧
      d.walk (if path.head? = some '/' then [] else workingFolder) (split '/' path) = .ok (place, wantsFolder) := by
  unfold locate at h
  split at h
  · cases h
  split at h
  · cases h
  · next hnull =>
    refine ⟨hnull, ?_⟩
    dsimp only at h
    cases hwalk : d.walk (if path.head? = some '/' then [] else workingFolder) (split '/' path) with
    | error refusal => rw [hwalk] at h; cases h
    | ok r =>
      rw [hwalk] at h
      cases h
      rfl

/-- The path of proper names leads to them. -/
theorem locate_of_proper {d : Disk} {workingFolder place : List Text} {root : Text} (hroot : root = ['/'] ∨ root = ['/', '/'])
    (hne : place ≠ []) (hplace : ∀ name ∈ place, ProperName name) (hopen : d.Open place) :
    d.locate workingFolder (root ++ join ['/'] place) = .ok (place, false) := by
  have hjoin : split '/' (join ['/'] place) = place := split_join hne fun name hname => (hplace name hname).noSlash
  have hnull : '\x00' ∉ root ++ join ['/'] place := by
    intro hmem
    rcases List.mem_append.1 hmem with hmem | hmem
    · rcases hroot with rfl | rfl <;> exact absurd hmem (by decide)
    · have hpiece : '\x00' = '/' ∨ ∃ name ∈ split '/' (join ['/'] place), '\x00' ∈ name := mem_piece_of_mem hmem
      rcases hpiece with h | ⟨name, hname, hmem⟩
      · exact absurd h (by decide)
      · rw [hjoin] at hname
        exact (hplace name hname).noNull hmem
  have hwalk : d.walk [] place = .ok (place, false) := walk_of_proper hne hplace hopen
  have hskip : ∀ names, d.walk [] ([] :: names) = d.walk [] names := fun names => by rw [walk, if_pos (.inl rfl)]
  have hsplit : ∀ t : Text, split '/' ('/' :: t) = [] :: split '/' t := split_append_cons List.not_mem_nil
  unfold locate
  rw [if_neg (by rcases hroot with rfl | rfl <;> exact Bool.false_ne_true), if_neg hnull]
  dsimp only
  rcases hroot with rfl | rfl
  · rw [List.singleton_append, List.head?_cons, if_pos rfl, hsplit, hskip, hjoin, hwalk]
    rfl
  · rw [List.cons_append, List.singleton_append, List.head?_cons, if_pos rfl, hsplit, hskip, hsplit, hskip, hjoin, hwalk]
    rfl

end Disk

namespace Workplace

variable {w : Workplace}

theorem foldl_walk_folder (hw : w.Sound) : w.folder.foldl (Path.walk true) [] = w.folder.reverse := by
  have hfold : ∀ (names start : List Text), (∀ name ∈ names, ProperName name) →
      names.foldl (Path.walk true) start.reverse = (start ++ names).reverse := by
    intro names
    induction names with
    | nil => exact fun start _ => by rw [List.append_nil]; rfl
    | cons name names ih =>
      intro start hnames
      rw [List.foldl_cons, Disk.walk_reverse_proper (hnames name List.mem_cons_self),
        ih _ fun n hn => hnames n (List.mem_cons_of_mem _ hn), List.append_assoc]
      rfl
  exact hfold w.folder [] hw.names

/-- The normal form sees a path from the working folder, as the disk does. -/
theorem foldl_walk_append (hw : w.Sound) (path : Text) :
    (split '/' (Path.append w.folderPath path)).foldl (Path.walk true) [] =
      (split '/' path).foldl (Path.walk true) (if path.head? = some '/' then [] else w.folder).reverse := by
  have hsplit : ∀ t : Text, split '/' ('/' :: t) = [] :: split '/' t := split_append_cons List.not_mem_nil
  unfold Path.append
  by_cases hhead : path.head? = some '/'
  · rw [if_pos hhead, if_pos hhead]
    rfl
  rw [if_neg hhead, if_neg hhead]
  unfold folderPath
  by_cases hfolder : w.folder = []
  · rw [hfolder, if_pos (by decide)]
    show (split '/' ('/' :: path)).foldl (Path.walk true) [] = _
    rw [hsplit, List.foldl_cons, Disk.walk_of_skipped (.inl rfl)]
    rfl
  · obtain ⟨t, c, ht, hc⟩ := Path.join_concat_ne_slash hw.names hfolder
    have hjoin : split '/' (t ++ [c]) = w.folder := ht ▸ split_join hfolder fun name hname => (hw.names name hname).noSlash
    have hlast : ('/' :: (t ++ [c])).getLast? = some c := by rw [← List.cons_append, List.getLast?_concat]
    rw [ht, hlast, if_neg (by simp [hc]), List.cons_append, hsplit, split_append_sep, hjoin,
      List.foldl_cons, Disk.walk_of_skipped (.inl rfl), List.foldl_append, foldl_walk_folder hw]

theorem absolute_eq (hw : w.Sound) {path : Text} {place : List Text}
    (hnormal : (split '/' path).foldl (Path.walk true) (if path.head? = some '/' then [] else w.folder).reverse = place.reverse) :
    ∃ root, (root = ['/'] ∨ root = ['/', '/']) ∧ w.absolute path = root ++ join ['/'] place := by
  obtain ⟨r, hr⟩ : ∃ r, Path.append w.folderPath path = '/' :: r := by
    unfold Path.append
    split
    · next hhead =>
      cases path with
      | nil => cases hhead
      | cons c r => exact ⟨r, by rw [Option.some.inj hhead]⟩
    · split
      · exact ⟨_, rfl⟩
      · exact ⟨_, rfl⟩
  have hroot : Path.rootOf ('/' :: r) = ['/'] ∨ Path.rootOf ('/' :: r) = ['/', '/'] := by
    unfold Path.rootOf
    split
    · exact .inl rfl
    · exact .inr rfl
    · exact .inl rfl
    · next h => exact absurd rfl (h r)
  refine ⟨Path.rootOf ('/' :: r), hroot, ?_⟩
  have hnames := foldl_walk_append hw path
  rw [hnormal, hr] at hnames
  have hrooted : (Path.rootOf ('/' :: r)).isEmpty = false := by
    rcases hroot with h | h
    · rw [h]
      rfl
    · rw [h]
      rfl
  unfold absolute Path.absolute Path.normalize
  rw [hr]
  dsimp only
  rw [hrooted, Bool.not_false, hnames, List.reverse_reverse, if_neg]
  rcases hroot with h | h
  · rw [h]
    exact Bool.false_ne_true
  · rw [h]
    exact Bool.false_ne_true

end Workplace

namespace Project

variable {w : Workplace} {p : Project} {place : List Text}

/-- The root script is where saving will look for it. -/
theorem locate_pathOf_rootName (hw : w.Sound) (h : w.disk.locate w.folder p.rootPath = .ok (place, false)) :
    w.disk.locate w.folder (p.pathOf w p.rootName) = .ok (place, false) := by
  obtain ⟨hnull, hwalk⟩ := Disk.exists_walk_of_locate h
  have hstart : ∀ name ∈ (if p.rootPath.head? = some '/' then [] else w.folder), ProperName name := by
    split
    · exact fun _ h => absurd h List.not_mem_nil
    · exact hw.names
  have hfolders : ∀ k, w.disk.entry? ((if p.rootPath.head? = some '/' then [] else w.folder).take k) = some .folder := by
    intro k
    split
    · rw [List.take_nil]
      rfl
    · exact hw.folders k
  have hnames : ∀ name ∈ split '/' p.rootPath, '/' ∉ name ∧ '\x00' ∉ name := fun name hname =>
    ⟨not_mem_of_mem_split hname, fun hmem => hnull (mem_of_mem_piece hname hmem)⟩
  have harrives := (Disk.walk_eq_ok_iff.1 hwalk).arrives hstart hnames hfolders
  have hlast : place.getLast? = some p.rootName := (harrives.last rfl).trans (Path.getLast?_split p.rootPath)
  obtain ⟨dirs, rfl⟩ := List.getLast?_eq_some_iff.1 hlast
  obtain ⟨root, hroot, habsolute⟩ := Workplace.absolute_eq hw harrives.normal
  have hpath : p.pathOf w p.rootName = root ++ join ['/'] (dirs ++ [p.rootName]) := by
    have hproper := harrives.proper p.rootName (List.mem_append_right _ (List.mem_singleton_self _))
    unfold pathOf Path.inside rootFolder
    rw [split_of_not_mem hproper.noSlash, habsolute]
    exact Path.append_folder hroot harrives.proper
  rw [hpath]
  exact Disk.locate_of_proper hroot (by simp) harrives.proper harrives.reachable

end Project

end LineTags
