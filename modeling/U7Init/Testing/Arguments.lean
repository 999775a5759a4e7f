import U7Init.Lib.CString
import U7Init.Lib.Outcome

/-!
# The Arguments of the Test Runner

This module models the loop of `u7_testing_run` over its arguments. The loop reads an
argument by its index, one or two of them in a round, and stops at the first that it does
not know. Beside it stands the grammar that it accepts: lists of items, each of which
consists of one or two arguments.

Arguments are C strings, and reading one that is not there is a `Fault`, so that the look at
the argument behind `--filter` has to be guarded. An item is `--list`, a filter in one argument
(`--filter=text`) or a filter in two (`--filter`, `text`). The second argument of the latter may
be anything, also `--list` or another `--filter`, and `--filter` without one is no item; that
the loop reads from left to right is what makes splitting unique. Later filters replace earlier
ones. Arguments are compared by `strcmp` and `strncmp`, and tests are selected by `strstr`, as
in the source.

## Main results

* `arguments_injective`: arguments split into items in at most one way.
* `parseArguments_spec`: the loop ends, reads no argument that is not there, and accepts
  exactly the lists of items.
* `parseArguments_of_items`: what it makes of them.
-/

namespace U7Init

open Outcome

/-- The local variables of `u7_testing_run` that the arguments set. -/
@[ext] structure Options where
  filter : Option CStr
  list : Bool

/-- What the loop over the arguments ends with. -/
inductive Parsed
  | accepted (options : Options)
  | unknown (argument : CStr)

/-- `argv[i]`, where `argv` has `argc` elements. -/
def readArgument (argv : List CStr) (i : ℕ) : Except Fault CStr :=
  match argv[i]? with
  | some argument => .ok argument
  | none => .error .outOfBounds

/-- The loop over the arguments from `argv[i]` on, with a bound on its rounds. -/
def parseArguments (argv : List CStr) : ℕ → ℕ → Options → Except Fault Parsed
  | 0, i, options => if i < argv.length then .error .diverges else .ok (.accepted options)
  | fuel + 1, i, options =>
      if i < argv.length then do
        let argument ← readArgument argv i
        if strcmp argument (.lit "--list") = 0 then
          parseArguments argv fuel (i + 1) { options with list := true }
        else if strcmp argument (.lit "--filter") = 0 ∧ i + 1 < argv.length then do
          let text ← readArgument argv (i + 1)
          parseArguments argv fuel (i + 2) { options with filter := some text }
        else if strncmp argument (.lit "--filter=") 9 = 0 then do
          let text ← argument.offset 9
          parseArguments argv fuel (i + 1) { options with filter := some text }
        else .ok (.unknown argument)
      else .ok (.accepted options)

/-! ### The grammar -/

/-- An item of the command line. -/
inductive Item
  | list
  | filter (text : CStr)
  | filterEq (text : CStr)

/-- The arguments of an item. -/
def Item.arguments : Item → List CStr
  | .list => [.lit "--list"]
  | .filter text => [.lit "--filter", text]
  | .filterEq text => [(CStr.lit "--filter=").append text]

/-- The arguments of several items. -/
def arguments (items : List Item) : List CStr :=
  items.flatMap Item.arguments

/-- The text of a filter item. -/
def Item.text : Item → Option CStr
  | .list => none
  | .filter text | .filterEq text => some text

/-- Whether an item is `--list`. -/
def Item.isList : Item → Bool
  | .list => true
  | .filter _ | .filterEq _ => false

/-- What the items ask for: the last filter counts, and `--list` anywhere. -/
def options (items : List Item) : Options where
  filter := (items.filterMap Item.text).getLast?
  list := items.any Item.isList

/-- The effect of a round of the loop. -/
def Item.apply (o : Options) : Item → Options
  | .list => { o with list := true }
  | .filter text | .filterEq text => { o with filter := some text }

theorem options_concat (items : List Item) (item : Item) :
    options (items ++ [item]) = item.apply (options items) := by
  cases item <;> simp [options, Item.apply, Item.text, Item.isList]

/-- The arguments after the program name are items. -/
def Accepted (args : List CStr) : Prop :=
  ∃ items, args = arguments items

private theorem list_ne_filter : CStr.lit "--list" ≠ CStr.lit "--filter" := by
  decide

private theorem append_ne {text s : CStr}
    (h : ¬ (CStr.lit "--filter=").bytes <+: s.bytes) :
    (CStr.lit "--filter=").append text ≠ s := by
  rintro rfl
  exact h (CStr.prefix_append _ _)

private theorem append_ne_list (text : CStr) :
    (CStr.lit "--filter=").append text ≠ CStr.lit "--list" :=
  append_ne (by decide)

private theorem append_ne_filter (text : CStr) :
    (CStr.lit "--filter=").append text ≠ CStr.lit "--filter" :=
  append_ne (by decide)

private theorem append_left_inj {text text' : CStr}
    (h : (CStr.lit "--filter=").append text = (CStr.lit "--filter=").append text') :
    text = text' :=
  CStr.ext (List.append_cancel_left (congrArg CStr.bytes h))

/-- The first argument says what the first item is. -/
theorem arguments_eq_cons {items : List Item} {argument : CStr} {args : List CStr}
    (h : arguments items = argument :: args) : ∃ item rest, items = item :: rest ∧
      ((item = .list ∧ argument = .lit "--list" ∧ args = arguments rest) ∨
        (∃ text, item = .filter text ∧ argument = .lit "--filter" ∧
          args = text :: arguments rest) ∨
        ∃ text, item = .filterEq text ∧ argument = (CStr.lit "--filter=").append text ∧
          args = arguments rest) := by
  cases items with
  | nil => cases h
  | cons item rest =>
      refine ⟨item, rest, rfl, ?_⟩
      cases item with
      | list =>
          obtain ⟨rfl, rfl⟩ := List.cons.inj h
          exact .inl ⟨rfl, rfl, rfl⟩
      | filter text =>
          obtain ⟨rfl, rfl⟩ := List.cons.inj h
          exact .inr (.inl ⟨text, rfl, rfl, rfl⟩)
      | filterEq text =>
          obtain ⟨rfl, rfl⟩ := List.cons.inj h
          exact .inr (.inr ⟨text, rfl, rfl, rfl⟩)

section Split

variable {items : List Item} {text : CStr} {args : List CStr}

/-- Arguments that begin with `--list` are those of a `--list` item and more. -/
theorem arguments_eq_list_cons (h : arguments items = .lit "--list" :: args) :
    ∃ rest, items = .list :: rest ∧ args = arguments rest := by
  rcases arguments_eq_cons h with
    ⟨_, rest, rfl, ⟨rfl, -, hrest⟩ | ⟨_, -, hhead, -⟩ | ⟨_, -, hhead, -⟩⟩
  · exact ⟨rest, rfl, hrest⟩
  · exact absurd hhead list_ne_filter
  · exact absurd hhead.symm (append_ne_list _)

/-- Arguments that begin with `--filter` are this, a text, and more. -/
theorem arguments_eq_filter_cons (h : arguments items = .lit "--filter" :: args) :
    ∃ text rest, items = .filter text :: rest ∧ args = text :: arguments rest := by
  rcases arguments_eq_cons h with
    ⟨_, rest, rfl, ⟨-, hhead, -⟩ | ⟨text, rfl, -, hrest⟩ | ⟨_, -, hhead, -⟩⟩
  · exact absurd hhead.symm list_ne_filter
  · exact ⟨text, rest, rfl, hrest⟩
  · exact absurd hhead.symm (append_ne_filter _)

/-- Arguments that begin with `--filter=` and a text are those of such an item and more. -/
theorem arguments_eq_filterEq_cons
    (h : arguments items = (CStr.lit "--filter=").append text :: args) :
    ∃ rest, items = .filterEq text :: rest ∧ args = arguments rest := by
  rcases arguments_eq_cons h with
    ⟨_, rest, rfl, ⟨-, hhead, -⟩ | ⟨_, -, hhead, -⟩ | ⟨_, rfl, hhead, hrest⟩⟩
  · exact absurd hhead (append_ne_list _)
  · exact absurd hhead (append_ne_filter _)
  · rw [append_left_inj hhead]
    exact ⟨rest, rfl, hrest⟩

end Split

/-- **Arguments split into items in at most one way.** -/
theorem arguments_injective : Function.Injective arguments := by
  intro items items' h
  induction items generalizing items' with
  | nil =>
      cases items' with
      | nil => rfl
      | cons item rest => cases item <;> cases h
  | cons item items ih =>
      cases item with
      | list =>
          obtain ⟨rest, rfl, hrest⟩ := arguments_eq_list_cons h.symm
          rw [ih hrest]
      | filter text =>
          obtain ⟨text', rest, rfl, hrest⟩ := arguments_eq_filter_cons h.symm
          have hcons : text :: arguments items = text' :: arguments rest := hrest
          obtain ⟨rfl, htail⟩ := List.cons.inj hcons
          rw [ih htail]
      | filterEq text =>
          obtain ⟨rest, rfl, hrest⟩ := arguments_eq_filterEq_cons h.symm
          rw [ih hrest]

/-- An argument that no item begins with is not accepted. -/
theorem not_accepted_of_unknown {argument : CStr} {args : List CStr}
    (hlist : strcmp argument (.lit "--list") ≠ 0)
    (hfilter : ¬ (strcmp argument (.lit "--filter") = 0 ∧ args ≠ []))
    (heq : strncmp argument (.lit "--filter=") 9 ≠ 0) : ¬ Accepted (argument :: args) := by
  rintro ⟨items, hitems⟩
  rcases arguments_eq_cons hitems.symm with
    ⟨_, rest, -, ⟨-, rfl, -⟩ | ⟨text, -, rfl, rfl⟩ | ⟨text, -, rfl, -⟩⟩
  · exact hlist (strcmp_eq_zero_iff.mpr rfl)
  · exact hfilter ⟨strcmp_eq_zero_iff.mpr rfl, List.cons_ne_nil _ _⟩
  · exact heq (strncmp_eq_zero_iff_startsWith.mpr (CStr.prefix_append _ _))

/-! ### The loop -/

/-- An argument that is there can be read. -/
theorem readArgument_of_lt {argv : List CStr} {i : ℕ} (h : i < argv.length) :
    ∃ argument, readArgument argv i = .ok argument ∧
      argv.drop i = argument :: argv.drop (i + 1) := by
  refine ⟨argv[i], ?_, List.drop_eq_getElem_cons h⟩
  rw [readArgument, List.getElem?_eq_getElem h]

/-- What the loop makes of the arguments from `argv[i]` on, after `items`. -/
inductive Reads (items : List Item) (args : List CStr) : Parsed → Prop
  | accepted (rest : List Item) :
      args = arguments rest → Reads items args (.accepted (options (items ++ rest)))
  | unknown (argument : CStr) : ¬ Accepted args → Reads items args (.unknown argument)

theorem reads_nil {items : List Item} : Reads items [] (.accepted (options items)) := by
  have h : Reads items [] (.accepted (options (items ++ []))) := .accepted [] rfl
  rwa [List.append_nil] at h

/-- One round: behind an item the rest of the arguments decides. -/
theorem Reads.cons {items : List Item} {item : Item} {args : List CStr} {parsed : Parsed}
    (h : Reads (items ++ [item]) args parsed)
    (hsplit : Accepted (item.arguments ++ args) → Accepted args) :
    Reads items (item.arguments ++ args) parsed := by
  cases h with
  | accepted rest hrest =>
      rw [List.append_assoc]
      refine .accepted (item :: rest) ?_
      rw [hrest, arguments, arguments, List.flatMap_cons]
  | unknown argument hnot => exact .unknown argument fun haccepted => hnot (hsplit haccepted)

/-- **The loop over the arguments** ends, stays within `argv`, and accepts exactly the
arguments of items. -/
theorem parseArguments_spec (argv : List CStr) (fuel i : ℕ) (items : List Item)
    (hfuel : argv.length ≤ i + fuel) :
    ∃ parsed, parseArguments argv fuel i (options items) = .ok parsed ∧
      Reads items (argv.drop i) parsed := by
  induction fuel generalizing i items with
  | zero =>
      have hle : ¬ i < argv.length := by omega
      rw [parseArguments, if_neg hle, List.drop_eq_nil_of_le (by omega)]
      exact ⟨_, rfl, reads_nil⟩
  | succ fuel ih =>
      by_cases hi : i < argv.length
      · obtain ⟨argument, hread, hdrop⟩ := readArgument_of_lt hi
        rw [parseArguments, if_pos hi, hread, ok_bind, hdrop]
        by_cases hlist : strcmp argument (.lit "--list") = 0
        · obtain ⟨parsed, hparsed, hreads⟩ := ih (i + 1) (items ++ [.list]) (by omega)
          rw [options_concat] at hparsed
          rw [if_pos hlist, strcmp_eq_zero_iff.mp hlist]
          refine ⟨parsed, hparsed, hreads.cons fun ⟨_, haccepted⟩ => ?_⟩
          obtain ⟨rest, -, hrest⟩ := arguments_eq_list_cons haccepted.symm
          exact ⟨rest, hrest⟩
        rw [if_neg hlist]
        by_cases hfilter : strcmp argument (.lit "--filter") = 0 ∧ i + 1 < argv.length
        · obtain ⟨hfilter, hnext⟩ := hfilter
          obtain ⟨text, hread', hdrop'⟩ := readArgument_of_lt hnext
          obtain ⟨parsed, hparsed, hreads⟩ := ih (i + 2) (items ++ [.filter text]) (by omega)
          rw [options_concat] at hparsed
          rw [if_pos ⟨hfilter, hnext⟩, hread', hdrop', strcmp_eq_zero_iff.mp hfilter]
          refine ⟨parsed, hparsed, hreads.cons fun ⟨_, haccepted⟩ => ?_⟩
          obtain ⟨_, rest, -, hrest⟩ := arguments_eq_filter_cons haccepted.symm
          exact ⟨rest, (List.cons.inj hrest).2⟩
        rw [if_neg hfilter]
        by_cases heq : strncmp argument (.lit "--filter=") 9 = 0
        · obtain ⟨text, rfl⟩ := CStr.exists_append (strncmp_eq_zero_iff_startsWith.mp heq)
          obtain ⟨parsed, hparsed, hreads⟩ := ih (i + 1) (items ++ [.filterEq text]) (by omega)
          rw [options_concat] at hparsed
          have hoffset : ((CStr.lit "--filter=").append text).offset 9 = .ok text :=
            CStr.offset_append _ _
          rw [if_pos heq, hoffset]
          refine ⟨parsed, hparsed, hreads.cons fun ⟨_, haccepted⟩ => ?_⟩
          obtain ⟨rest, -, hrest⟩ := arguments_eq_filterEq_cons haccepted.symm
          exact ⟨rest, hrest⟩
        · rw [if_neg heq]
          refine ⟨_, rfl, .unknown argument (not_accepted_of_unknown hlist ?_ heq)⟩
          rintro ⟨hargument, hargs⟩
          rw [Ne, List.drop_eq_nil_iff, not_le] at hargs
          exact hfilter ⟨hargument, hargs⟩
      · rw [parseArguments, if_neg hi, List.drop_eq_nil_of_le (by omega)]
        exact ⟨_, rfl, reads_nil⟩

/-- Arguments that are items are accepted for what the items ask for. -/
theorem parseArguments_of_items {argv : List CStr} {items : List Item}
    (h : argv.tail = arguments items) :
    parseArguments argv argv.length 1 ⟨none, false⟩ = .ok (.accepted (options items)) := by
  obtain ⟨parsed, hparsed, hreads⟩ := parseArguments_spec argv argv.length 1 [] (by omega)
  rw [List.drop_one] at hreads
  cases hreads with
  | accepted rest hrest =>
      obtain rfl := arguments_injective (h.symm.trans hrest)
      exact hparsed
  | unknown _ hnot => exact absurd ⟨items, h⟩ hnot

/-- Other arguments are not accepted. -/
theorem parseArguments_of_not_accepted {argv : List CStr} (h : ¬ Accepted argv.tail) :
    ∃ argument, parseArguments argv argv.length 1 ⟨none, false⟩ = .ok (.unknown argument) := by
  obtain ⟨parsed, hparsed, hreads⟩ := parseArguments_spec argv argv.length 1 [] (by omega)
  rw [List.drop_one] at hreads
  cases hreads with
  | accepted rest hrest => exact absurd ⟨rest, hrest⟩ h
  | unknown argument _ => exact ⟨argument, hparsed⟩

/-- `argument` stands where no item begins. -/
def Stray (argument : CStr) (args : List CStr) : Prop :=
  ∀ (item : Item) (rest : List CStr), argument :: args ≠ item.arguments ++ rest

theorem stray_of_unknown {argument : CStr} {args : List CStr}
    (hlist : strcmp argument (.lit "--list") ≠ 0)
    (hfilter : ¬ (strcmp argument (.lit "--filter") = 0 ∧ args ≠ []))
    (heq : strncmp argument (.lit "--filter=") 9 ≠ 0) : Stray argument args := by
  intro item rest h
  cases item with
  | list =>
      obtain ⟨rfl, -⟩ := List.cons.inj h
      exact hlist (strcmp_eq_zero_iff.mpr rfl)
  | filter text =>
      obtain ⟨rfl, rfl⟩ := List.cons.inj h
      exact hfilter ⟨strcmp_eq_zero_iff.mpr rfl, List.cons_ne_nil _ _⟩
  | filterEq text =>
      obtain ⟨rfl, -⟩ := List.cons.inj h
      exact heq (strncmp_eq_zero_iff_startsWith.mpr (CStr.prefix_append _ _))

/-- **The argument that is reported** is the first that stands where no item begins. -/
theorem stray_of_parseArguments {argv : List CStr} {fuel i : ℕ} {o : Options} {argument : CStr}
    (h : parseArguments argv fuel i o = .ok (.unknown argument)) :
    ∃ items rest, argv.drop i = arguments items ++ argument :: rest ∧ Stray argument rest := by
  -- an item more in front
  have hcons : ∀ {args : List CStr} (item : Item),
      (∃ items rest, args = arguments items ++ argument :: rest ∧ Stray argument rest) →
      ∃ items rest, item.arguments ++ args = arguments items ++ argument :: rest ∧
        Stray argument rest := by
    rintro args item ⟨items, rest, rfl, hstray⟩
    exact ⟨item :: items, rest, (List.append_assoc _ _ _).symm, hstray⟩
  induction fuel generalizing i o with
  | zero =>
      rw [parseArguments] at h
      split at h <;> cases h
  | succ fuel ih =>
      rw [parseArguments] at h
      by_cases hi : i < argv.length
      · obtain ⟨arg, hread, hdrop⟩ := readArgument_of_lt hi
        rw [if_pos hi, hread, ok_bind] at h
        rw [hdrop]
        by_cases hlist : strcmp arg (.lit "--list") = 0
        · rw [if_pos hlist] at h
          rw [strcmp_eq_zero_iff.mp hlist]
          exact hcons .list (ih h)
        rw [if_neg hlist] at h
        by_cases hfilter : strcmp arg (.lit "--filter") = 0 ∧ i + 1 < argv.length
        · obtain ⟨text, hread', hdrop'⟩ := readArgument_of_lt hfilter.2
          rw [if_pos hfilter, hread', ok_bind] at h
          rw [strcmp_eq_zero_iff.mp hfilter.1, hdrop']
          exact hcons (.filter text) (ih h)
        rw [if_neg hfilter] at h
        by_cases heq : strncmp arg (.lit "--filter=") 9 = 0
        · obtain ⟨text, rfl⟩ := CStr.exists_append (strncmp_eq_zero_iff_startsWith.mp heq)
          have hoffset : ((CStr.lit "--filter=").append text).offset 9 = .ok text :=
            CStr.offset_append _ _
          rw [if_pos heq, hoffset, ok_bind] at h
          exact hcons (.filterEq text) (ih h)
        · rw [if_neg heq] at h
          obtain rfl := Parsed.unknown.inj (Except.ok.inj h)
          refine ⟨[], _, rfl, stray_of_unknown hlist ?_ heq⟩
          rintro ⟨hargument, hargs⟩
          rw [Ne, List.drop_eq_nil_iff, not_le] at hargs
          exact hfilter ⟨hargument, hargs⟩
      · rw [if_neg hi] at h
        cases h

end U7Init
