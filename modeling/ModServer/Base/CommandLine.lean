import ModServer.Base.Bytes
import ModServer.Library.Table

/-!
The command line's switches, from `base/command_line.h` and `command_line.cpp`
as UNIX builds them. A switch is `-name` or `-name=value`; the first of two
switches with one name is kept.
-/

namespace ModServer

open Library

/-- `kSwitchPrefix`. -/
def dash : UInt8 := 45

/-- `kValueSeparator`. -/
def equals : UInt8 := 61

/-- A C string. What is behind its `'\0'` is not part of it. -/
structure CString where
  chars : Bytes
  nul_not_mem : nul ∉ chars

/-- `m_switches` is a `std::map`. -/
structure CommandLine where
  switches : Std.TreeMap Bytes Bytes

/-- `ParseSwitch`: the switch's name and value. `value` is what `*value` holds
already; without a separator `value->empty()` leaves it as it is. -/
def parseSwitch (command value : Bytes) : Option (Bytes × Bytes) :=
  match command with
  | [] => none
  | first :: rest =>
      if first ≠ dash then none
      else
        match (first :: rest).findIdx? (· == equals) with
        | none => some (rest, value)
        | some separatorPos =>
            some (((first :: rest).drop 1).take (separatorPos - 1),
              (first :: rest).drop (separatorPos + 1))

namespace CommandLine

def hasSwitch (c : CommandLine) (switchStr : Bytes) : Bool :=
  (c.switches[switchStr]?).isSome

def switchValue (c : CommandLine) (switchStr : Bytes) : Bytes :=
  match c.switches[switchStr]? with
  | none => []
  | some value => value

/-- One iteration of `InitFromStringVec`'s loop. -/
def initParam (c : CommandLine) (param : Bytes) : CommandLine :=
  match parseSwitch param [] with
  | none => c
  | some (switchStr, value) => ⟨c.switches.insertIfNew switchStr value⟩

/-- `InitFromStringVec`. The switches that were there before are cleared. -/
def initFromStringVec (_ : CommandLine) (cmdParams : List Bytes) : CommandLine :=
  cmdParams.foldl initParam ⟨∅⟩

/-- `InitFromArgv`. `none` is the assertion that there is a program name. -/
def initFromArgv (c : CommandLine) (argv : List CString) : Option CommandLine :=
  if argv.length = 0 then none
  else some (c.initFromStringVec ((argv.drop 1).map CString.chars))

end CommandLine

/-- The two shapes of a switch. -/
def IsSwitch (name arg : Bytes) : Prop :=
  arg = dash :: name ∨ ∃ value, arg = dash :: (name ++ equals :: value)

theorem parseSwitch_bare {name : Bytes} (value : Bytes) (h : equals ∉ name) :
    parseSwitch (dash :: name) value = some (name, value) := by
  have hfind : (dash :: name).findIdx? (· == equals) = none := by
    rw [List.findIdx?_eq_none_iff]
    intro c hc
    rcases List.mem_cons.mp hc with rfl | hname
    · decide
    · exact beq_eq_false_iff_ne.mpr (fun heq => h (heq ▸ hname))
  simp only [parseSwitch, hfind, ne_eq, not_true_eq_false, if_false]

theorem parseSwitch_valued {name : Bytes} (text value : Bytes) (h : equals ∉ name) :
    parseSwitch (dash :: (name ++ equals :: text)) value = some (name, text) := by
  have hfind : (dash :: (name ++ equals :: text)).findIdx? (· == equals) =
      some (name.length + 1) := by
    have hname : name.findIdx? (· == equals) = none := by
      rw [List.findIdx?_eq_none_iff]
      exact fun c hc => beq_eq_false_iff_ne.mpr (fun heq => h (heq ▸ hc))
    have hdash : (dash == equals) = false := by decide
    simp [List.findIdx?_cons, List.findIdx?_append, hname, hdash]
  have hvalue : (name ++ equals :: text).drop (name.length + 1) = text := by
    rw [List.drop_append]
    simp
  simp only [parseSwitch, hfind, ne_eq, not_true_eq_false, if_false, List.drop_succ_cons,
    List.drop_zero, Nat.add_sub_cancel, List.take_left, hvalue]

theorem parseSwitch_eq_none {arg : Bytes} (value : Bytes) (h : arg.head? ≠ some dash) :
    parseSwitch arg value = none := by
  cases arg with
  | nil => rfl
  | cons first rest =>
      have hfirst : first ≠ dash := fun heq => h (congrArg some heq)
      rw [parseSwitch, if_pos hfirst]

/-- An argument with the prefix is a switch of one of the two shapes. -/
theorem exists_switch (rest : Bytes) :
    ∃ name, equals ∉ name ∧ (rest = name ∨ ∃ value, rest = name ++ equals :: value) := by
  by_cases h : equals ∈ rest
  · obtain ⟨name, value, rfl, hname⟩ := List.eq_append_cons_of_mem h
    exact ⟨name, hname, .inr ⟨value, rfl⟩⟩
  · exact ⟨rest, h, .inl rfl⟩

theorem parseSwitch_eq_some_iff {arg name text : Bytes} :
    parseSwitch arg [] = some (name, text) ↔
      equals ∉ name ∧
        (arg = dash :: name ∧ text = [] ∨ arg = dash :: (name ++ equals :: text)) := by
  constructor
  · intro h
    by_cases hdash : arg.head? = some dash
    · obtain ⟨rest, rfl⟩ := List.head?_eq_some_iff.mp hdash
      obtain ⟨found, hfound, rfl | ⟨value, rfl⟩⟩ := exists_switch rest
      · rw [parseSwitch_bare [] hfound] at h
        cases h
        exact ⟨hfound, .inl ⟨rfl, rfl⟩⟩
      · rw [parseSwitch_valued value [] hfound] at h
        cases h
        exact ⟨hfound, .inr rfl⟩
    · rw [parseSwitch_eq_none [] hdash] at h
      cases h
  · rintro ⟨hname, ⟨rfl, rfl⟩ | rfl⟩
    · exact parseSwitch_bare [] hname
    · exact parseSwitch_valued text [] hname

/-- Further separators stay in the value. -/
example : parseSwitch (ascii "-a=b=c") [] = some (ascii "a", ascii "b=c") := by decide +kernel

theorem IsSwitch.exists_parse {name arg : Bytes} (h : IsSwitch name arg) (hname : equals ∉ name) :
    ∃ text, parseSwitch arg [] = some (name, text) := by
  rcases h with rfl | ⟨value, rfl⟩
  · exact ⟨[], parseSwitch_bare [] hname⟩
  · exact ⟨value, parseSwitch_valued value [] hname⟩

theorem isSwitch_of_parse {name arg text : Bytes} (h : parseSwitch arg [] = some (name, text)) :
    equals ∉ name ∧ IsSwitch name arg := by
  obtain ⟨hname, ⟨harg, _⟩ | harg⟩ := parseSwitch_eq_some_iff.mp h
  · exact ⟨hname, .inl harg⟩
  · exact ⟨hname, .inr ⟨text, harg⟩⟩

/-- The switches among the arguments, in their order and with every duplicate. -/
def switchEntries (args : List Bytes) : List (Bytes × Bytes) :=
  args.filterMap (fun arg => parseSwitch arg [])

namespace CommandLine

theorem initFromStringVec_eq (c : CommandLine) (args : List Bytes) :
    (c.initFromStringVec args).switches = insertAll ∅ (switchEntries args) := by
  have hfold : ∀ table : Std.TreeMap Bytes Bytes,
      (args.foldl initParam ⟨table⟩).switches = insertAll table (switchEntries args) := by
    induction args with
    | nil => exact fun table => rfl
    | cons arg args ih =>
        intro table
        rw [List.foldl_cons, initParam]
        cases hparse : parseSwitch arg [] with
        | none =>
            have hentries : switchEntries (arg :: args) = switchEntries args :=
              List.filterMap_cons_none hparse
            rw [hentries, ← ih]
        | some entry =>
            have hentries : switchEntries (arg :: args) = entry :: switchEntries args :=
              List.filterMap_cons_some hparse
            rw [hentries, insertAll, List.foldl_cons, ← insertAll, ← ih]
  exact hfold ∅

theorem lookup_switches (c : CommandLine) (args : List Bytes) (name : Bytes) :
    (c.initFromStringVec args).switches[name]? = (switchEntries args).lookup name := by
  rw [c.initFromStringVec_eq, getElem?_insertAll]
  simp

end CommandLine

theorem mem_switchEntries {args : List Bytes} {name text : Bytes} :
    (name, text) ∈ switchEntries args ↔ ∃ arg ∈ args, parseSwitch arg [] = some (name, text) :=
  List.mem_filterMap

theorem lookup_switchEntries_eq_none {args : List Bytes} {name : Bytes}
    (h : ∀ arg ∈ args, ¬ IsSwitch name arg) : (switchEntries args).lookup name = none := by
  rw [List.lookup_eq_none_iff]
  rintro ⟨found, text⟩ hentry
  obtain ⟨arg, harg, hparse⟩ := mem_switchEntries.mp hentry
  refine bne_iff_ne.mpr (fun heq => ?_)
  exact h arg harg (heq ▸ (isSwitch_of_parse hparse).2)

/-- The first of the name's switches is the one that is found. -/
theorem lookup_switchEntries {before after : List Bytes} {arg name text : Bytes}
    (hbefore : ∀ earlier ∈ before, ¬ IsSwitch name earlier)
    (hparse : parseSwitch arg [] = some (name, text)) :
    (switchEntries (before ++ arg :: after)).lookup name = some text := by
  have hentries : switchEntries (before ++ arg :: after) =
      switchEntries before ++ (name, text) :: switchEntries after := by
    simp only [switchEntries, List.filterMap_append, List.filterMap_cons, hparse]
  rw [hentries, List.lookup_append, lookup_switchEntries_eq_none hbefore, Option.none_or,
    List.lookup_cons_self]

theorem lookup_switchEntries_isSome {args : List Bytes} {name : Bytes} :
    ((switchEntries args).lookup name).isSome = true ↔
      equals ∉ name ∧ ∃ arg ∈ args, IsSwitch name arg := by
  rw [List.lookup_isSome_iff]
  constructor
  · rintro ⟨⟨found, text⟩, hentry, hname⟩
    obtain ⟨arg, harg, hparse⟩ := mem_switchEntries.mp hentry
    obtain rfl : name = found := eq_of_beq hname
    exact ⟨(isSwitch_of_parse hparse).1, arg, harg, (isSwitch_of_parse hparse).2⟩
  · rintro ⟨hname, arg, harg, hswitch⟩
    obtain ⟨text, hparse⟩ := hswitch.exists_parse hname
    exact ⟨(name, text), mem_switchEntries.mpr ⟨arg, harg, hparse⟩, beq_self_eq_true name⟩

/-- No switch at all, or one whose name an earlier argument has taken. -/
def Ignored (before : List Bytes) (arg : Bytes) : Prop :=
  arg.head? ≠ some dash ∨
    ∃ name, equals ∉ name ∧ IsSwitch name arg ∧ ∃ earlier ∈ before, IsSwitch name earlier

theorem Ignored.lookup {before after : List Bytes} {arg : Bytes} (h : Ignored before arg)
    (name : Bytes) :
    (switchEntries (before ++ arg :: after)).lookup name =
      (switchEntries (before ++ after)).lookup name := by
  rcases h with hplain | ⟨taken, htaken, hswitch, earlier, hearlier, hfirst⟩
  · have hparse : parseSwitch arg [] = none := parseSwitch_eq_none [] hplain
    simp only [switchEntries, List.filterMap_append, List.filterMap_cons, hparse]
  · obtain ⟨text, hparse⟩ := hswitch.exists_parse htaken
    obtain ⟨kept, hkept⟩ := hfirst.exists_parse htaken
    have hentry : (taken, kept) ∈ switchEntries before :=
      mem_switchEntries.mpr ⟨earlier, hearlier, hkept⟩
    have hshadowed :=
      @lookup_shadowed _ _ _ _ _ (switchEntries after) (taken, text) _ hentry rfl name
    simpa only [switchEntries, List.filterMap_append, List.filterMap_cons, hparse] using hshadowed

/-- A switch with a value, as it is written on the command line. -/
def render (entry : Bytes × Bytes) : Bytes :=
  dash :: (entry.1 ++ equals :: entry.2)

theorem switchEntries_filter (args : List Bytes) :
    switchEntries (args.filter (fun arg => arg.head? = some dash)) = switchEntries args := by
  induction args with
  | nil => rfl
  | cons arg args ih =>
      by_cases hdash : arg.head? = some dash
      · rw [List.filter_cons_of_pos (by simpa using hdash)]
        simp only [switchEntries, List.filterMap_cons] at ih ⊢
        rw [ih]
      · have hparse := parseSwitch_eq_none [] hdash
        rw [List.filter_cons_of_neg (by simpa using hdash), ih]
        simp only [switchEntries, List.filterMap_cons, hparse]

theorem switchEntries_render {entries : List (Bytes × Bytes)}
    (h : ∀ entry ∈ entries, equals ∉ entry.1) : switchEntries (entries.map render) = entries := by
  induction entries with
  | nil => rfl
  | cons entry entries ih =>
      rw [List.forall_mem_cons] at h
      have hparse : parseSwitch (render entry) [] = some entry := parseSwitch_valued _ [] h.1
      have hrest := ih h.2
      simp only [switchEntries, List.map_cons, List.filterMap_cons, hparse] at hrest ⊢
      rw [hrest]

/-- Distinct switches are found in whatever order they are written, and whatever
is between them. -/
theorem lookup_rendered {args : List Bytes} {entries : List (Bytes × Bytes)}
    (hargs : (args.filter (fun arg => arg.head? = some dash)).Perm (entries.map render))
    (hequals : ∀ entry ∈ entries, equals ∉ entry.1) (hnodup : (entries.map Prod.fst).Nodup)
    {entry : Bytes × Bytes} (h : entry ∈ entries) :
    (switchEntries args).lookup entry.1 = some entry.2 := by
  have hperm : (switchEntries args).Perm entries := by
    have hmapped := hargs.filterMap (fun arg => parseSwitch arg [])
    change (switchEntries (args.filter _)).Perm (switchEntries (entries.map render)) at hmapped
    rwa [switchEntries_filter, switchEntries_render hequals] at hmapped
  apply lookup_eq_some_of_mem (hperm.mem_iff.mpr h)
  exact (hperm.map Prod.fst).nodup_iff.mpr hnodup

namespace CommandLine

theorem hasSwitch_eq (c : CommandLine) (args : List Bytes) (name : Bytes) :
    (c.initFromStringVec args).hasSwitch name = ((switchEntries args).lookup name).isSome := by
  rw [hasSwitch, c.lookup_switches]

theorem switchValue_eq (c : CommandLine) (args : List Bytes) (name : Bytes) :
    (c.initFromStringVec args).switchValue name =
      ((switchEntries args).lookup name).getD [] := by
  rw [switchValue, c.lookup_switches]
  cases (switchEntries args).lookup name <;> rfl

/-- What each lookup answers, which arguments it does not depend on, and that
written switches are read back. -/
theorem switches_exact (c : CommandLine) (program : CString) (args : List CString) :
    ∃ read, c.initFromArgv (program :: args) = some read ∧
      (∀ name, read.hasSwitch name = true ↔
        equals ∉ name ∧ ∃ arg ∈ args, IsSwitch name arg.chars) ∧
      (∀ name before arg after, read.hasSwitch name = true → args = before ++ arg :: after →
        (∀ earlier ∈ before, ¬ IsSwitch name earlier.chars) →
        (arg.chars = dash :: name → read.switchValue name = []) ∧
          ∀ value, arg.chars = dash :: (name ++ equals :: value) →
            read.switchValue name = value) ∧
      (∀ name, read.hasSwitch name = false → read.switchValue name = []) ∧
      (∀ before arg after, args = before ++ arg :: after →
        Ignored (before.map CString.chars) arg.chars →
        ∃ without, c.initFromArgv (program :: (before ++ after)) = some without ∧
          ∀ name, read.hasSwitch name = without.hasSwitch name ∧
            read.switchValue name = without.switchValue name) ∧
      (∀ entries : List (Bytes × Bytes),
        ((args.map CString.chars).filter (fun arg => arg.head? = some dash)).Perm
          (entries.map render) →
        (∀ entry ∈ entries, equals ∉ entry.1) → (entries.map Prod.fst).Nodup →
        ∀ entry ∈ entries, read.hasSwitch entry.1 = true ∧
          read.switchValue entry.1 = entry.2) := by
  refine ⟨c.initFromStringVec (args.map CString.chars), rfl, ?_, ?_, ?_, ?_, ?_⟩
  · intro name
    rw [hasSwitch_eq, lookup_switchEntries_isSome]
    simp
  · rintro name before arg after hhas rfl hbefore
    rw [hasSwitch_eq, lookup_switchEntries_isSome] at hhas
    have hfirst : ∀ earlier ∈ before.map CString.chars, ¬ IsSwitch name earlier := by
      simpa only [List.forall_mem_map] using hbefore
    have hvalue : ∀ text, parseSwitch arg.chars [] = some (name, text) →
        (c.initFromStringVec ((before ++ arg :: after).map CString.chars)).switchValue name =
          text := by
      intro text hparse
      rw [switchValue_eq, List.map_append, List.map_cons, lookup_switchEntries hfirst hparse,
        Option.getD_some]
    constructor
    · intro hbare
      exact hvalue [] (hbare ▸ parseSwitch_bare [] hhas.1)
    · intro text hvalued
      exact hvalue text (hvalued ▸ parseSwitch_valued text [] hhas.1)
  · intro name hhas
    rw [hasSwitch_eq, Option.isSome_eq_false_iff, Option.isNone_iff_eq_none] at hhas
    rw [switchValue_eq, hhas, Option.getD_none]
  · rintro before arg after rfl hignored
    refine ⟨c.initFromStringVec ((before ++ after).map CString.chars), rfl, fun name => ?_⟩
    have hlookup := @Ignored.lookup _ (after.map CString.chars) _ hignored name
    rw [hasSwitch_eq, hasSwitch_eq, switchValue_eq, switchValue_eq, List.map_append, List.map_cons,
      List.map_append, hlookup]
    exact ⟨rfl, rfl⟩
  · intro entries hargs hequals hnodup entry hentry
    have hlookup := lookup_rendered hargs hequals hnodup hentry
    rw [hasSwitch_eq, switchValue_eq, hlookup]
    exact ⟨rfl, rfl⟩

end CommandLine

end ModServer
