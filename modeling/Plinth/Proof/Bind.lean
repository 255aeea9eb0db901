import Plinth.Model.Bind

/-! # Setting the forwarders -/

namespace Plinth.Bind

open Python

variable {line forwarders text : List Char} {data inserted inserted' : List (List Char)} {flag : Bool}

/-! ## The lines of a file -/

theorem strip_newline (line : List Char) : Text.strip (line ++ ['\n']) = Text.strip line := by
  have last : ∀ s : List Char, Text.rstrip (s ++ ['\n']) = Text.rstrip s := fun s => by
    rw [Text.rstrip, List.rdropWhile_concat_pos _ _ _ (by decide), Text.rstrip]
  rw [Text.strip, Text.strip]
  by_cases blank : ∀ c ∈ line, Text.isSpace c = true
  · have none_ : Text.lstrip line = [] := List.dropWhile_eq_nil_iff.mpr blank
    have none_' : Text.lstrip (line ++ ['\n']) = [] := by
      apply List.dropWhile_eq_nil_iff.mpr
      intro c member
      rcases List.mem_append.mp member with inside | newline
      · exact blank c inside
      · rw [List.mem_singleton.mp newline]
        rfl
    rw [none_, none_']
  · have some_ : Text.lstrip line ≠ [] := fun none_ => blank (List.dropWhile_eq_nil_iff.mp none_)
    have kept : Text.lstrip (line ++ ['\n']) = Text.lstrip line ++ ['\n'] := by
      rw [Text.lstrip, List.dropWhile_append]
      exact if_neg (mt List.isEmpty_iff.mp some_)
    rw [kept, last]

structure Tidy (line : List Char) : Prop where
  stripped : Text.strip line = line
  newline : '\n' ∉ line
  return_ : '\r' ∉ line

theorem tidy_strip (newline : '\n' ∉ line) (return_ : '\r' ∉ line) : Tidy (Text.strip line) :=
  ⟨Text.strip_strip line, fun member => newline ((Text.strip_sublist line).subset member),
    fun member => return_ ((Text.strip_sublist line).subset member)⟩

theorem tidy_strippedLines (text : List Char) : ∀ line ∈ strippedLines text, Tidy line := by
  intro line member
  obtain ⟨whole, isLine, rfl⟩ := List.mem_map.mp member
  have return_ : '\r' ∉ whole := by
    intro inside
    apply Text.not_mem_universalNewlines text
    rw [← Text.flatten_readlines (Text.universalNewlines text)]
    exact List.mem_flatten.mpr ⟨whole, isLine, inside⟩
  have isLines := Text.isLines_readlines (Text.universalNewlines text)
  generalize Text.readlines (Text.universalNewlines text) = lines at isLines isLine
  induction isLines with
  | nil => cases isLine
  | last free _ =>
    cases List.mem_singleton.mp isLine
    exact tidy_strip free return_
  | cons free _ ih =>
    rcases List.mem_cons.mp isLine with rfl | later
    · rw [strip_newline]
      exact tidy_strip free fun inside => return_ (List.mem_append_left _ inside)
    · exact ih later

theorem strippedLines_written (free : ∀ line ∈ data, '\n' ∉ line ∧ '\r' ∉ line) :
    strippedLines (data.flatMap (· ++ ['\n'])) = data.map Text.strip := by
  have noReturn : '\r' ∉ data.flatMap (· ++ ['\n']) := by
    intro member
    obtain ⟨line, inside, last⟩ := List.mem_flatMap.mp member
    simp [(free line inside).2] at last
  rw [strippedLines, (Text.universalNewlines_eq_iff _).mpr noReturn]
  clear noReturn
  induction data with
  | nil => rfl
  | cons line data ih =>
    obtain ⟨⟨newline, _⟩, later⟩ := List.forall_mem_cons.mp free
    rw [List.flatMap_cons, List.append_assoc, List.singleton_append,
      Text.readlines_cons newline, List.map_cons, ih later, strip_newline, List.map_cons]

theorem mem_writeLines (member : line ∈ writeLines inserted flag data) :
    line ∈ data ∨ line ∈ inserted := by
  induction data generalizing flag with
  | nil => cases member
  | cons first data ih =>
    have later : ∀ flag', line ∈ writeLines inserted flag' data →
        line ∈ first :: data ∨ line ∈ inserted :=
      fun flag' inside => (ih inside).imp_left (List.mem_cons_of_mem first)
    have now : ∀ flag', line ∈ first :: writeLines inserted flag' data →
        line ∈ first :: data ∨ line ∈ inserted := by
      intro flag' inside
      rcases List.mem_cons.mp inside with rfl | inside
      · exact .inl List.mem_cons_self
      · exact later flag' inside
    unfold writeLines at member
    split at member
    · rcases List.mem_cons.mp member with rfl | member
      · exact .inl List.mem_cons_self
      · exact (List.mem_append.mp member).elim .inr (later true)
    · split at member
      · exact now false member
      · split at member
        · exact now false member
        · exact later flag member

theorem map_strip_writeLines (tidy : ∀ line ∈ data, Tidy line) :
    (writeLines inserted flag data).map Text.strip =
      writeLines (inserted.map Text.strip) flag data := by
  induction data generalizing flag with
  | nil => rfl
  | cons line data ih =>
    obtain ⟨first, later⟩ := List.forall_mem_cons.mp tidy
    unfold writeLines
    split
    · rw [List.map_cons, first.stripped, List.map_append, ih later]
    · split
      · rw [List.map_cons, first.stripped, ih later]
      · split
        · rw [List.map_cons, first.stripped, ih later]
        · exact ih later

/-! ## Writing again -/

theorem mem_of_startswith {c : Char} (starts : Text.startswith line [c] = true) : c ∈ line := by
  cases line with
  | nil => cases starts
  | cons d line =>
    rw [Text.startswith_single, beq_iff_eq] at starts
    exact starts ▸ List.mem_cons_self

theorem mem_of_contains {c : Char} {word : List Char}
    (found : Text.contains (c :: word) line = true) : c ∈ line := by
  induction line with
  | nil => cases found
  | cons d line ih =>
    rw [Text.contains, Text.find] at found
    split at found
    · rename_i starts
      rw [List.isPrefixOf_cons_cons, Bool.and_eq_true, beq_iff_eq] at starts
      exact starts.1 ▸ List.mem_cons_self
    · rw [Option.isSome_map] at found
      exact List.mem_cons_of_mem d (ih found)

theorem mem_of_opensForwarders (opens : opensForwarders line = true) : '{' ∈ line := by
  have brace := mem_of_startswith (Bool.and_eq_true_iff.mp opens).2
  have inside := (List.dropWhile_sublist _).subset brace
  exact (List.dropWhile_sublist _).subset (List.mem_of_mem_drop inside)

structure Inner (line : List Char) : Prop where
  opens : opensForwarders line = false
  closes : Text.contains "\x7d;".toList line = false

theorem writeLines_inner (inner : ∀ line ∈ inserted, Inner line) (rest : List (List Char)) :
    writeLines inserted' true (inserted ++ rest) = writeLines inserted' true rest := by
  induction inserted with
  | nil => rfl
  | cons line inserted ih =>
    obtain ⟨first, later⟩ := List.forall_mem_cons.mp inner
    rw [List.cons_append, writeLines, if_neg (by simp [first.opens]),
      if_neg (by rw [first.closes]; decide), if_neg (by decide), ih later]

theorem writeLines_writeLines (inner : ∀ line ∈ inserted, Inner line) :
    writeLines inserted' flag (writeLines inserted flag data) = writeLines inserted' flag data := by
  induction data generalizing flag with
  | nil => rfl
  | cons line data ih =>
    rw [writeLines, writeLines.eq_def inserted' flag (line :: data)]
    dsimp only
    split
    · rename_i opens
      rw [writeLines, if_pos opens, writeLines_inner inner, ih]
    · rename_i notOpen
      split
      · rename_i closes
        rw [writeLines, if_neg notOpen, if_pos closes, ih]
      · rename_i notClosed
        split
        · rename_i out
          rw [writeLines, if_neg notOpen, if_neg notClosed, if_pos out, ih]
        · exact ih

theorem any_writeLines (inner : ∀ line ∈ inserted, Inner line) :
    (writeLines inserted flag data).any opensForwarders = data.any opensForwarders := by
  have never : inserted.any opensForwarders = false := by
    rw [List.any_eq_false]
    intro line member
    simp [(inner line member).opens]
  induction data generalizing flag with
  | nil => rfl
  | cons line data ih =>
    unfold writeLines
    split
    · rw [List.any_cons, List.any_append, never, ih, Bool.false_or, List.any_cons]
    · rename_i notOpen
      split
      · rw [List.any_cons, ih, List.any_cons]
      · split
        · rw [List.any_cons, ih, List.any_cons]
        · rw [ih, List.any_cons, Bool.eq_false_iff.mpr notOpen, Bool.false_or]

/-! ## Reading what was written -/

theorem readForwarders_writeLines {dns : List Char} (inner : Inner dns)
    (noComment : Text.contains "//".toList dns = false) (before : List Char) :
    readForwarders false before (writeLines [dns] flag data) =
      if data.any opensForwarders then dns.filter (· ≠ ';') else before := by
  induction data generalizing flag before with
  | nil => rfl
  | cons line data ih =>
    unfold writeLines
    split
    · rename_i opens
      rw [readForwarders, if_pos opens, List.singleton_append, readForwarders,
        if_neg (by simp [inner.opens]), if_pos (by rw [noComment]; rfl), ih, ite_self,
        List.any_cons, opens]
      rfl
    · rename_i notOpen
      have skipped : ∀ rest, readForwarders false before (line :: rest) =
          readForwarders false before rest := by
        intro rest
        rw [readForwarders, if_neg notOpen]
        rfl
      have others : (line :: data).any opensForwarders = data.any opensForwarders := by
        rw [List.any_cons, Bool.eq_false_iff.mpr notOpen, Bool.false_or]
      rw [others]
      split
      · rw [skipped, ih]
      · split
        · rw [skipped, ih]
        · exact ih before

theorem dnsLine_concat (words : List (List Char)) (last : List Char) :
    (words ++ [last]).flatMap (· ++ [';', ' ']) =
      (words.flatMap (· ++ [';', ' ']) ++ last) ++ ';' :: [' '] := by
  simp

theorem filter_words {words : List (List Char)} {last : List Char}
    (free : ∀ word ∈ words ++ [last], ';' ∉ word) :
    (words.flatMap (· ++ [';', ' ']) ++ last).filter (· ≠ ';') =
      [' '].intercalate (words ++ [last]) := by
  have plain : ∀ word ∈ words ++ [last], word.filter (· ≠ ';') = word := by
    intro word member
    rw [List.filter_eq_self]
    intro c inside
    rw [decide_eq_true_eq]
    rintro rfl
    exact free word member inside
  induction words with
  | nil => simpa using plain last (by simp)
  | cons word words ih =>
    obtain ⟨first, later⟩ := List.forall_mem_cons.mp plain
    have rest := ih (fun word member => free word (List.mem_cons_of_mem _ member)) later
    obtain ⟨next, others, same⟩ := List.exists_cons_of_ne_nil
      (List.append_ne_nil_of_right_ne_nil words (List.cons_ne_nil last []))
    rw [List.cons_append, same, List.intercalate_cons_cons, ← same, ← rest, List.flatMap_cons,
      List.append_assoc, List.append_assoc, List.filter_append, first, List.append_assoc]
    rfl

theorem filter_dnsLine (free : ';' ∉ forwarders) :
    (Text.strip (dnsLine forwarders)).filter (· ≠ ';') =
      [' '].intercalate (Text.words forwarders) := by
  have isWord := fun word => @Text.of_mem_words forwarders word
  have noSemicolon : ∀ word ∈ Text.words forwarders, ';' ∉ word := by
    intro word member inside
    exact free (Text.mem_of_mem_words member inside)
  unfold dnsLine
  generalize Text.words forwarders = words at isWord noSemicolon
  cases words using List.reverseRecOn with
  | nil => rfl
  | append_singleton words last =>
    have starts : ∃ c rest, words.flatMap (· ++ [';', ' ']) ++ last = c :: rest ∧
        Text.isSpace c = false := by
      cases words with
      | nil =>
        obtain ⟨nonempty, letters⟩ := isWord last (by simp)
        obtain ⟨c, rest, rfl⟩ := List.exists_cons_of_ne_nil nonempty
        exact ⟨c, rest, rfl, letters c List.mem_cons_self⟩
      | cons word words =>
        obtain ⟨nonempty, letters⟩ := isWord word (by simp)
        obtain ⟨c, rest, rfl⟩ := List.exists_cons_of_ne_nil nonempty
        exact ⟨c, _, rfl, letters c List.mem_cons_self⟩
    have kept : Text.lstrip (words.flatMap (· ++ [';', ' ']) ++ last) =
        words.flatMap (· ++ [';', ' ']) ++ last := by
      obtain ⟨c, rest, same, letter⟩ := starts
      rw [same, Text.lstrip, List.dropWhile_cons_of_neg (by simp [letter])]
    rw [dnsLine_concat, Text.strip_append (by decide), kept, List.filter_append,
      filter_words noSemicolon]
    exact List.append_nil _

/-! ## A list of addresses -/

theorem mem_dnsLine {c : Char} (member : c ∈ dnsLine forwarders) :
    c = ';' ∨ c = ' ' ∨ c ∈ forwarders ∧ Text.isSpace c = false := by
  obtain ⟨word, isWord, inside⟩ := List.mem_flatMap.mp member
  rcases List.mem_append.mp inside with letter | sep
  · exact .inr (.inr ⟨Text.mem_of_mem_words isWord letter, (Text.of_mem_words isWord).2 c letter⟩)
  · simp only [List.mem_cons, List.not_mem_nil, or_false] at sep
    exact sep.imp_right .inl

section Plain

variable (plain : Plain forwarders)

include plain

theorem not_mem_dnsLine {c : Char} (special : c ∈ ['{', '}', '/']) :
    c ∉ Text.strip (dnsLine forwarders) := by
  intro member
  rcases mem_dnsLine ((Text.strip_sublist _).subset member) with rfl | rfl | ⟨inside, -⟩
  · exact absurd special (by decide)
  · exact absurd special (by decide)
  · apply plain c inside
    simp only [List.mem_cons, List.not_mem_nil, or_false] at special ⊢
    tauto

theorem inner_dnsLine : ∀ line ∈ [Text.strip (dnsLine forwarders)], Inner line := by
  intro line member
  rw [List.mem_singleton.mp member]
  constructor
  · exact Bool.eq_false_iff.mpr fun opens =>
      not_mem_dnsLine plain (by decide) (mem_of_opensForwarders opens)
  · exact Bool.eq_false_iff.mpr fun closes =>
      not_mem_dnsLine plain (by decide) (mem_of_contains closes)

omit plain in
theorem strippedLines_setForwarders : strippedLines (setForwarders forwarders text) =
    writeLines [Text.strip (dnsLine forwarders)] false (strippedLines text) := by
  have blank : ∀ c ∈ ['\n', '\r'], c ∉ dnsLine forwarders := by
    intro c member inside
    rcases mem_dnsLine inside with rfl | rfl | ⟨-, letter⟩
    · exact absurd member (by decide)
    · exact absurd member (by decide)
    · simp only [List.mem_cons, List.not_mem_nil, or_false] at member
      rcases member with rfl | rfl <;> exact absurd letter (by decide)
  rw [setForwarders, strippedLines_written, map_strip_writeLines (tidy_strippedLines text)]
  · rfl
  · intro line member
    rcases mem_writeLines member with old | new
    · have tidy := tidy_strippedLines text line old
      exact ⟨tidy.newline, tidy.return_⟩
    · rw [List.mem_singleton.mp new]
      exact ⟨blank '\n' (by decide), blank '\r' (by decide)⟩

theorem setForwarders_setForwarders (again text : List Char) :
    setForwarders again (setForwarders forwarders text) = setForwarders again text := by
  rw [setForwarders, strippedLines_setForwarders, writeLines_writeLines (inner_dnsLine plain),
    setForwarders]

theorem outside_setForwarders (text : List Char) :
    outside (setForwarders forwarders text) = outside text := by
  rw [outside, strippedLines_setForwarders, writeLines_writeLines (inner_dnsLine plain), outside]

theorem hasBlock_setForwarders : HasBlock (setForwarders forwarders text) ↔ HasBlock text := by
  rw [HasBlock, strippedLines_setForwarders, any_writeLines (inner_dnsLine plain), HasBlock]

theorem getConfig_setForwarders (block : HasBlock text) :
    getConfig (setForwarders forwarders text) = [' '].intercalate (Text.words forwarders) := by
  have noComment : Text.contains "//".toList (Text.strip (dnsLine forwarders)) = false :=
    Bool.eq_false_iff.mpr fun comment => not_mem_dnsLine plain (by decide) (mem_of_contains comment)
  have noSemicolon : ';' ∉ forwarders := fun inside => plain ';' inside (by decide)
  rw [getConfig, strippedLines_setForwarders, readForwarders_writeLines
    (inner_dnsLine plain _ List.mem_cons_self) noComment, ← filter_dnsLine noSemicolon]
  exact if_pos block

theorem words_formValid (block : HasBlock text) :
    Text.words (getConfig (formValid text forwarders)) = Text.words forwarders := by
  unfold formValid
  split
  · rw [getConfig_setForwarders plain block, Text.words_intercalate]
    exact fun word => Text.of_mem_words
  · rename_i same
    rw [not_not.mp same]

end Plain

/-! ## Submissions -/

def Written (text : List Char) (submissions : List (List Char)) (now : List Char) : Prop :=
  now = text ∨ ∃ forwarders ∈ submissions, now = setForwarders forwarders text

theorem written_run (text : List Char) (submissions : List (List Char))
    (plain : ∀ forwarders ∈ submissions, Plain forwarders) :
    Written text submissions (Runs.run formValid text submissions) := by
  induction submissions using List.reverseRecOn with
  | nil => exact .inl rfl
  | append_singleton earlier last ih =>
    have before := ih fun forwarders member => plain forwarders (List.mem_append_left _ member)
    rw [Runs.run_append, Runs.run_cons, Runs.run_nil]
    generalize Runs.run formValid text earlier = now at before
    unfold formValid
    split
    · right
      refine ⟨last, List.mem_append_right _ (List.mem_singleton_self last), ?_⟩
      rcases before with rfl | ⟨forwarders, member, rfl⟩
      · rfl
      · rw [setForwarders_setForwarders (plain forwarders (List.mem_append_left _ member))]
    · exact before.imp_right fun ⟨forwarders, member, same⟩ =>
        ⟨forwarders, List.mem_append_left _ member, same⟩

def oneServer : List Char :=
  "options \x7b\nforwarders \x7b\n127.0.0.53;\n\x7d;\n\x7d;\n".toList

end Plinth.Bind
