import FieldSieve.CommandLine
import FieldSieve.Proofs.EncodedText
import FieldSieve.Proofs.FailingLoops

/-!
# The order of options

A command line is written in groups: a flag, the option for a path with its path, or an argument.
Cut into items it falls into just these groups (`items_arguments`), although a path can look like an
option and can be an argument of its own or the end of one.

The items are taken into account one after another, but what a group brings has a place of its own
in the draft, and nothing but a path can be wrong before the end.  So the last draft is put together
from the flags, the paths and the argument, each for themselves (`request_items`), and it does not
matter how they were mixed.
-/
namespace FieldSieve.CommandLine

/-- The two ways to write a flag. -/
def Flag.forms : Flag → List String
  | fee => ["-f", "--fee"]
  | json => ["-j", "--json"]
  | verbose => ["-v", "--verbose"]
  | help => ["-h", "--help"]

/-- The ways to write the option for a path. -/
inductive CaptureForm where
  | short
  | long
  /-- In one argument, behind a `=`. -/
  | joined
  deriving DecidableEq, Repr

/-- The texts of an option and its path. -/
def CaptureForm.texts (path : String) : CaptureForm → List String
  | short => ["-c", path]
  | long => ["--capture", path]
  | joined => ["--capture=" ++ path]

/-- Arguments that belong together. -/
inductive Group where
  | flag (flag : Flag) (text : String) (hflag : flag ≠ .help) (htext : text ∈ flag.forms)
  | capture (form : CaptureForm) (path : String)
  | positional (text : String) (htext : text = "-" ∨ text.toList.head? ≠ some '-')

namespace Group

/-- The arguments, as texts. -/
def texts : Group → List String
  | flag _ text _ _ => [text]
  | capture form path => form.texts path
  | positional text _ => [text]

/-- The flag, if the group is one. -/
def flag? : Group → Option Flag
  | flag f _ _ _ => some f
  | _ => none

/-- The text that stands for a path, if there is one. -/
def path? : Group → Option String
  | capture _ path => some path
  | _ => none

/-- The argument that belongs to no option, if the group is one. -/
def positional? : Group → Option String
  | positional text _ => some text
  | _ => none

/-- What is read of the group. -/
def item : Group → Item
  | flag f _ _ _ => .flag f
  | capture _ path => .capture (Text.Utf8.encode path)
  | positional text _ => .positional (Text.Utf8.encode text)

end Group

/-- The arguments that groups are written as. -/
def arguments (groups : List Group) : List Bytes :=
  (groups.flatMap Group.texts).map Text.Utf8.encode

variable {flag : Flag} {text path name : String} {group : Group} {groups : List Group}
  {arg value bytes : Bytes} {rest : List Bytes} {found : List Item}

/-! ### The items of a group -/

/-- A cluster that is complete is an argument of its own, -/
theorem items_cluster (hform : Form.ofBytes arg = .cluster bytes)
    (hitems : clusterItems none bytes = (found, false)) :
    items (arg :: rest) = found ++ items rest := by
  rw [items, hform]
  simp only [hitems, Bool.false_eq_true, if_false]

/-- and one that lacks a value takes the next argument. -/
theorem items_cluster_path (hform : Form.ofBytes arg = .cluster bytes)
    (hitems : clusterItems none bytes = (found, true)) :
    items (arg :: value :: rest) = found ++ .capture value :: items rest := by
  rw [items, hform]
  simp only [hitems, if_true]

/-- It is the same for long options, -/
theorem items_long (hform : Form.ofBytes arg = .long name none)
    (htakes : takesPath (.long name) = false) :
    items (arg :: rest) = longItems name none ++ items rest := by
  rw [items, hform]
  simp only [htakes, Bool.false_eq_true, if_false]

theorem items_long_path (hform : Form.ofBytes arg = .long name none)
    (htakes : takesPath (.long name) = true) :
    items (arg :: value :: rest) = .capture value :: items rest := by
  rw [items, hform]
  simp only [htakes, if_true]

/-- which may also bring the value themselves. -/
theorem items_long_joined (hform : Form.ofBytes arg = .long name (some value))
    (htakes : takesPath (.long name) = true) :
    items (arg :: rest) = .capture value :: items rest := by
  rw [items, hform]
  simp only [htakes, if_true]

/-- What a flag is written as is a cluster of this flag alone or a long option without a value. -/
theorem ofBytes_flag (hflag : flag ≠ .help) (htext : text ∈ flag.forms) :
    (∃ bytes, Form.ofBytes (Text.Utf8.encode text) = .cluster bytes ∧
      clusterItems none bytes = ([.flag flag], false)) ∨
    ∃ name, Form.ofBytes (Text.Utf8.encode text) = .long name none ∧
      takesPath (.long name) = false ∧ longItems name none = [.flag flag] := by
  cases flag with
  | fee =>
    rcases List.mem_pair.mp htext with rfl | rfl
    · exact .inl ⟨[0x66], by decide +kernel, by decide +kernel⟩
    · exact .inr ⟨"fee", by decide +kernel, rfl, rfl⟩
  | json =>
    rcases List.mem_pair.mp htext with rfl | rfl
    · exact .inl ⟨[0x6a], by decide +kernel, by decide +kernel⟩
    · exact .inr ⟨"json", by decide +kernel, rfl, rfl⟩
  | verbose =>
    rcases List.mem_pair.mp htext with rfl | rfl
    · exact .inl ⟨[0x76], by decide +kernel, by decide +kernel⟩
    · exact .inr ⟨"verbose", by decide +kernel, rfl, rfl⟩
  | help => exact absurd rfl hflag

/-- A flag is read, whichever way it is written. -/
theorem items_flag (hflag : flag ≠ .help) (htext : text ∈ flag.forms) :
    items (Text.Utf8.encode text :: rest) = .flag flag :: items rest := by
  rcases ofBytes_flag hflag htext with ⟨bytes, hform, hitems⟩ | ⟨name, hform, htakes, hitems⟩
  · exact items_cluster hform hitems
  · rw [items_long hform htakes, hitems]
    rfl

theorem ofBytes_joined (value : Bytes) :
    Form.ofBytes (Text.Utf8.encode "--capture=" ++ value) = .long "capture" (some value) := by
  have hbytes : Text.Utf8.encode "--capture=" =
      [0x2d, 0x2d, 0x63, 0x61, 0x70, 0x74, 0x75, 0x72, 0x65, 0x3d] := by decide +kernel
  have hname : Text.Utf8.decodeLossy [0x63, 0x61, 0x70, 0x74, 0x75, 0x72, 0x65] = "capture" := by
    decide +kernel
  rw [hbytes, ← hname]
  rfl

/-- A path is read as it stands, whether it looks like an option or not. -/
theorem items_capture (form : CaptureForm) :
    items ((form.texts path).map Text.Utf8.encode ++ rest) =
      .capture (Text.Utf8.encode path) :: items rest := by
  cases form with
  | short =>
    have hform : Form.ofBytes (Text.Utf8.encode "-c") = .cluster [0x63] := by decide +kernel
    have hitems : clusterItems none [0x63] = ([], true) := by decide +kernel
    exact items_cluster_path hform hitems
  | long =>
    have hform : Form.ofBytes (Text.Utf8.encode "--capture") = .long "capture" none := by
      decide +kernel
    exact items_long_path hform rfl
  | joined =>
    show items (Text.Utf8.encode ("--capture=" ++ path) :: rest) = _
    rw [Text.Utf8.encode_append]
    exact items_long_joined (ofBytes_joined _) rfl

/-- An argument is plain if its first byte is no dash. -/
theorem ofBytes_of_head?_ne {arg : Bytes} (h : arg.head? ≠ some 0x2d) :
    Form.ofBytes arg = .plain := by
  unfold Form.ofBytes
  split <;> simp_all

theorem ofBytes_positional (h : text = "-" ∨ text.toList.head? ≠ some '-') :
    Form.ofBytes (Text.Utf8.encode text) = .plain := by
  rcases h with rfl | h
  · decide +kernel
  · exact ofBytes_of_head?_ne fun hdash => h (Text.Utf8.head?_of_head?_encode (by decide) hdash)

theorem items_positional (htext : text = "-" ∨ text.toList.head? ≠ some '-') :
    items (Text.Utf8.encode text :: rest) = .positional (Text.Utf8.encode text) :: items rest := by
  rw [items, ofBytes_positional htext]

/-- Each group is an item of its own, whatever is behind it. -/
theorem items_group (group : Group) :
    items (group.texts.map Text.Utf8.encode ++ rest) = group.item :: items rest := by
  cases group with
  | flag flag text hflag htext => exact items_flag hflag htext
  | capture form path => exact items_capture form
  | positional text htext => exact items_positional htext

theorem items_arguments (groups : List Group) :
    items (arguments groups) = groups.map Group.item := by
  induction groups with
  | nil => rfl
  | cons group groups ih =>
    rw [arguments, List.flatMap_cons, List.map_append, items_group, ← arguments, ih]
    rfl

/-! ### What the groups ask for -/

/-- The flags among the groups. -/
def flags (groups : List Group) : List Flag := groups.filterMap Group.flag?

/-- The texts that stand for paths. -/
def captures (groups : List Group) : List String := groups.filterMap Group.path?

/-- The arguments that belong to no option. -/
def positionals (groups : List Group) : List String := groups.filterMap Group.positional?

/-- The path that a text behind an option stands for. -/
def readCapture (text : String) : Except UsageError FieldPath := readPath (Text.Utf8.encode text)

/-- The draft with what some groups ask for, their paths given. -/
def Draft.extended (draft : Draft) (groups : List Group) (paths : List FieldPath) : Draft where
  input := draft.input <|> (positionals groups).head?
  fee := draft.fee || decide (.fee ∈ flags groups)
  captures := draft.captures ++ paths
  json := draft.json || decide (.json ∈ flags groups)
  verbose := draft.verbose || decide (.verbose ∈ flags groups)

theorem flags_append (others : List Group) :
    flags (groups ++ others) = flags groups ++ flags others :=
  List.filterMap_append

theorem captures_append (others : List Group) :
    captures (groups ++ others) = captures groups ++ captures others :=
  List.filterMap_append

theorem positionals_append (others : List Group) :
    positionals (groups ++ others) = positionals groups ++ positionals others :=
  List.filterMap_append

@[simp] theorem extended_nil (draft : Draft) : draft.extended [] [] = draft := by
  simp [Draft.extended, flags, positionals]

theorem extended_extended (draft : Draft) (others : List Group) (paths more : List FieldPath) :
    (draft.extended groups paths).extended others more =
      draft.extended (groups ++ others) (paths ++ more) := by
  simp [Draft.extended, flags_append, positionals_append, Bool.or_assoc, Option.or_assoc]

/-- An argument takes the place that is left for it. -/
theorem toList_input_extended {draft : Draft} (paths : List FieldPath)
    (h : (draft.input.toList ++ positionals groups).length ≤ 1) :
    (draft.extended groups paths).input.toList = draft.input.toList ++ positionals groups := by
  rw [Draft.extended]
  cases hinput : draft.input with
  | none =>
    rw [hinput] at h
    rcases hpositionals : positionals groups with _ | ⟨text, _ | ⟨other, texts⟩⟩
    · rfl
    · rfl
    · simp [hpositionals] at h
  | some text =>
    rw [hinput] at h
    have hnone : positionals groups = [] := List.eq_nil_of_length_eq_zero (by simpa using h)
    rw [hnone]
    rfl

theorem readText_encode (text : String) : readText (Text.Utf8.encode text) = .ok text := by
  rw [readText, Text.Utf8.decode?_encode]

theorem readCapture_eq_ok_iff {path : FieldPath} :
    readCapture text = .ok path ↔ FieldPath.read text = .ok path ∧ path ≠ .root := by
  simp only [readCapture, readPath, readText_encode, bind, Except.bind]
  cases FieldPath.read text with
  | error error => exact ⟨nofun, fun h => absurd h.1 nofun⟩
  | ok found =>
    dsimp only
    rw [Except.ok.injEq]
    by_cases hroot : found.isRoot
    · rw [if_pos hroot]
      refine ⟨nofun, ?_⟩
      rintro ⟨rfl, hne⟩
      exact absurd (FieldPath.isRoot_iff.mp hroot) hne
    · rw [if_neg hroot, Except.ok.injEq]
      refine ⟨?_, And.left⟩
      rintro rfl
      exact ⟨rfl, fun h => hroot (FieldPath.isRoot_iff.mpr h)⟩

/-- What is asked for by a group is added if its path can be read, should it have one. -/
theorem add_item {draft : Draft} (h : (draft.input.toList ++ positionals [group]).length ≤ 1) :
    draft.add group.item =
      ((captures [group]).mapM readCapture).map (draft.extended [group] ·) := by
  cases group with
  | flag flag text hflag htext =>
    change draft.add (.flag flag) = .ok (draft.extended [.flag flag text hflag htext] [])
    cases flag with
    | fee | json | verbose =>
      simp [Draft.add, Draft.extended, flags, positionals, Group.flag?, Group.positional?]
    | help => exact absurd rfl hflag
  | capture form path =>
    change (readCapture path >>= fun found => _) = ([path].mapM readCapture).map _
    rw [List.mapM_cons]
    cases readCapture path with
    | error error => rfl
    | ok found =>
      change Except.ok _ = Except.ok _
      simp [Draft.extended, flags, positionals, Group.flag?, Group.positional?]
  | positional text htext =>
    have hnone : draft.input = none := by
      cases hinput : draft.input with
      | none => rfl
      | some other => simp [hinput, positionals, Group.positional?] at h
    change draft.add (.positional (Text.Utf8.encode text)) =
      .ok (draft.extended [.positional text htext] [])
    simp only [Draft.add, hnone, readText_encode]
    simp [Draft.extended, flags, positionals, Group.flag?, Group.positional?, hnone]

theorem request_cons (draft : Draft) (items : List Item) :
    draft.request (group.item :: items) = draft.add group.item >>= (·.request items) := by
  cases group with
  | flag flag text hflag htext =>
    cases flag with
    | fee | json | verbose => rfl
    | help => exact absurd rfl hflag
  | capture form path => rfl
  | positional text htext => rfl

/-- The items of groups with at most one argument can only fail at a path, and otherwise they are
settled together. -/
theorem request_items (draft : Draft)
    (hone : (draft.input.toList ++ positionals groups).length ≤ 1) :
    draft.request (groups.map Group.item) =
      ((captures groups).mapM readCapture >>= fun paths =>
        (draft.extended groups paths).settings.map .extract) := by
  induction groups generalizing draft with
  | nil =>
    show draft.settings.map _ = (draft.extended [] []).settings.map _
    rw [extended_nil]
  | cons group groups ih =>
    change (draft.input.toList ++ positionals ([group] ++ groups)).length ≤ 1 at hone
    change draft.request (group.item :: groups.map Group.item) =
      (captures ([group] ++ groups)).mapM readCapture >>= fun paths =>
        (draft.extended ([group] ++ groups) paths).settings.map .extract
    rw [positionals_append, ← List.append_assoc] at hone
    have hgroup : (draft.input.toList ++ positionals [group]).length ≤ 1 := by
      rw [List.length_append] at hone
      omega
    rw [request_cons, add_item hgroup, captures_append, List.mapM_append]
    cases hpath : (captures [group]).mapM readCapture with
    | error error => rfl
    | ok paths =>
      rw [← toList_input_extended paths hgroup] at hone
      change (draft.extended [group] paths).request (groups.map Group.item) =
        (.ok paths >>= fun _ => _) >>= _
      rw [ih _ hone]
      simp only [extended_extended]
      cases (captures groups).mapM readCapture <;> rfl

theorem read_arguments (hone : (positionals groups).length ≤ 1) : read (arguments groups) =
    ((captures groups).mapM readCapture >>= fun paths =>
      (Draft.extended {} groups paths).settings.map .extract) := by
  rw [read, items_arguments]
  exact request_items {} hone

/-- What groups ask for together, their paths given. -/
def settingsOf (groups : List Group) (paths : List FieldPath) : Settings where
  input := (positionals groups).head?
  mode := if .fee ∈ flags groups then .fee else if paths = [] then .dump else .capture paths
  json := decide (.json ∈ flags groups)
  verbose := decide (.verbose ∈ flags groups)

theorem settings_extended (paths : List FieldPath) :
    (Draft.extended {} groups paths).settings =
      if .fee ∈ flags groups ∧ paths ≠ [] then .error .conflictingModes
      else .ok (settingsOf groups paths) := by
  by_cases hfee : .fee ∈ flags groups <;> cases paths <;>
    simp [Draft.settings, Draft.extended, settingsOf, hfee]

/-- What is asked for is settled by the flags, the paths and the argument, each for itself. -/
theorem read_eq_ok_iff (hone : (positionals groups).length ≤ 1) {request : Request} :
    read (arguments groups) = .ok request ↔
      ∃ paths, (captures groups).mapM readCapture = .ok paths ∧
        ¬ (.fee ∈ flags groups ∧ captures groups ≠ []) ∧
        request = .extract (settingsOf groups paths) := by
  rw [read_arguments hone]
  cases hpaths : (captures groups).mapM readCapture with
  | error error => exact ⟨nofun, fun ⟨_, h, _⟩ => nomatch h⟩
  | ok paths =>
    have hnil : paths = [] ↔ captures groups = [] := by
      rw [← List.length_eq_zero_iff, ← (Except.mapM_eq_ok_iff.mp hpaths).length_eq,
        List.length_eq_zero_iff]
    change (Draft.extended {} groups paths).settings.map .extract = .ok request ↔ _
    simp only [settings_extended, ne_eq, hnil]
    split
    · next hconflict => exact ⟨nofun, fun ⟨_, _, h, _⟩ => absurd hconflict h⟩
    · next hsettled =>
      constructor
      · intro h
        exact ⟨paths, rfl, hsettled, (Except.ok.inj h).symm⟩
      · rintro ⟨_, hsame, -, rfl⟩
        cases hsame
        rfl

/-- **Options can be given in any order.**  Groups with at most one argument among them are taken
just if each text for a path stands for one that is not the root, and fees are not asked for beside
paths.  Then the argument, the paths in their order and what flags there are say what is asked for.
So groups can be moved past each other, and flags repeated, as long as the paths keep their order,
and the same thing is asked for or the same thing is wrong. -/
theorem read_groups (hone : (positionals groups).length ≤ 1) :
    ((∃ request, read (arguments groups) = .ok request) ↔
      (∀ text ∈ captures groups, ∃ path, FieldPath.read text = .ok path ∧ path ≠ .root) ∧
      ¬ (.fee ∈ flags groups ∧ captures groups ≠ [])) ∧
    (∀ request, read (arguments groups) = .ok request →
      ∃ paths, (captures groups).mapM FieldPath.read = .ok paths ∧
        request = .extract (settingsOf groups paths)) ∧
    ∀ others, captures others = captures groups → positionals others = positionals groups →
      (∀ flag, flag ∈ flags others ↔ flag ∈ flags groups) →
      read (arguments others) = read (arguments groups) := by
  refine ⟨⟨?_, ?_⟩, ?_, ?_⟩
  · rintro ⟨request, h⟩
    obtain ⟨paths, hpaths, hsettled, -⟩ := (read_eq_ok_iff hone).mp h
    refine ⟨fun text htext => ?_, hsettled⟩
    obtain ⟨path, hpath⟩ := Except.exists_mapM_eq_ok_iff.mp ⟨paths, hpaths⟩ text htext
    exact ⟨path, readCapture_eq_ok_iff.mp hpath⟩
  · rintro ⟨hread, hsettled⟩
    have hcaptures : ∀ text ∈ captures groups, ∃ path, readCapture text = .ok path :=
      fun text htext => (hread text htext).imp fun _ => readCapture_eq_ok_iff.mpr
    obtain ⟨paths, hpaths⟩ := Except.exists_mapM_eq_ok_iff.mpr hcaptures
    exact ⟨_, (read_eq_ok_iff hone).mpr ⟨paths, hpaths, hsettled, rfl⟩⟩
  · intro request h
    obtain ⟨paths, hpaths, -, rfl⟩ := (read_eq_ok_iff hone).mp h
    refine ⟨paths, Except.mapM_eq_ok_iff.mpr ?_, rfl⟩
    exact (Except.mapM_eq_ok_iff.mp hpaths).imp fun _ _ hread => (readCapture_eq_ok_iff.mp hread).1
  · intro others hcaptures hpositionals hflags
    have hdraft : ∀ paths, Draft.extended {} others paths = Draft.extended {} groups paths := by
      intro paths
      simp only [Draft.extended, hpositionals, hflags]
    rw [read_arguments hone, read_arguments (hpositionals ▸ hone), hcaptures]
    simp only [hdraft]

/-- A flag given twice, and an argument between two paths. -/
theorem read_groups_mixed :
    read (arguments [.capture .joined "2:1", .flag .json "-j" (by decide) (by decide),
      .positional "-" (by decide), .capture .short "3",
      .flag .json "--json" (by decide) (by decide)]) =
    .ok (.extract ⟨some "-", .capture [.ofList [2, 1], .ofList [3]], true, false⟩) := by
  obtain ⟨hsucceeds, hasks, -⟩ := @read_groups [.capture .joined "2:1",
    .flag .json "-j" (by decide) (by decide), .positional "-" (by decide), .capture .short "3",
    .flag .json "--json" (by decide) (by decide)] (by decide)
  have hfirst : FieldPath.read "2:1" = .ok (.ofList [2, 1]) := rfl
  have hsecond : FieldPath.read "3" = .ok (.ofList [3]) := rfl
  have hread : ∀ text ∈ ["2:1", "3"], ∃ path, FieldPath.read text = .ok path ∧ path ≠ .root := by
    rw [List.forall_mem_cons, List.forall_mem_singleton]
    exact ⟨⟨_, hfirst, by decide⟩, _, hsecond, by decide⟩
  obtain ⟨request, hrequest⟩ := hsucceeds.mpr ⟨hread, fun h => absurd h.1 (by decide)⟩
  obtain ⟨paths, hpaths, rfl⟩ := hasks request hrequest
  have hboth : ["2:1", "3"].mapM FieldPath.read = .ok [.ofList [2, 1], .ofList [3]] := by
    rw [List.mapM_cons, List.mapM_cons, hfirst, hsecond]
    rfl
  cases hboth.symm.trans hpaths
  exact hrequest

end FieldSieve.CommandLine
