import CodeAtlas.Proofs.Grammar.ImportClauses
import CodeAtlas.Proofs.Pieces
/-!
Reading the clauses of an import. What is read off a text is every path that it names
(`importPaths_iff`), unless a selector is hidden: a member called `as` between two spaces, which
reads as the sign of an alias without a name in front of it.
-/
namespace CodeAtlas.Grammar.Scala

section Cutting

theorem clauses_ne_nil (depth : Nat) (s : List Char) : clauses depth s ≠ [] := by
  cases s with
  | nil => exact List.cons_ne_nil _ _
  | cons c s =>
    rw [clauses]
    split
    · exact List.cons_ne_nil _ _
    · dsimp only
      split <;> exact List.cons_ne_nil _ _

def depthBehind (depth : Nat) (c : Char) : Nat :=
  if c == '\x7b' then depth + 1 else if c == '\x7d' then depth - 1 else depth

theorem clauses_cons {depth : Nat} {c : Char} (h : depth = 0 → c ≠ ',') (s : List Char) :
    clauses depth (c :: s) = (clauses (depthBehind depth c) s).modifyHead (c :: ·) := by
  have hcomma : ¬ ((c == ',' && depth == 0) = true) := by simpa using fun hc hd => h hd hc
  obtain ⟨part, parts, hparts⟩ :=
    List.exists_cons_of_ne_nil (clauses_ne_nil (depthBehind depth c) s)
  rw [clauses, if_neg hcomma]
  unfold depthBehind at hparts ⊢
  simp only [hparts, List.modifyHead_cons]

theorem clauses_comma (s : List Char) : clauses 0 (',' :: s) = [] :: clauses 0 s :=
  rfl

/-- A text without braces, and without commas outside braces, stays in one part. -/
theorem clauses_append {depth : Nat} {s : List Char} (hcomma : depth = 0 → ',' ∉ s)
    (hopen : '\x7b' ∉ s) (hclose : '\x7d' ∉ s) (t : List Char) :
    clauses depth (s ++ t) = (clauses depth t).modifyHead (s ++ ·) := by
  induction s with
  | nil => exact (congrFun List.modifyHead_id _).symm
  | cons c s ih =>
    have hc : depth = 0 → c ≠ ',' := fun hd heq => hcomma hd (heq ▸ List.mem_cons_self)
    have hdepth : depthBehind depth c = depth := by
      have hne : c ≠ '\x7b' ∧ c ≠ '\x7d' :=
        ⟨fun heq => hopen (heq ▸ List.mem_cons_self), fun heq => hclose (heq ▸ List.mem_cons_self)⟩
      simp [depthBehind, hne]
    rw [List.cons_append, clauses_cons hc, hdepth,
      ih (fun hd => mt (List.mem_cons_of_mem c) (hcomma hd))
        (mt (List.mem_cons_of_mem c) hopen) (mt (List.mem_cons_of_mem c) hclose),
      List.modifyHead_modifyHead]
    rfl

end Cutting

section Selectors

/-- The first word of a selector is one word, and no arrow is in it. -/
theorem Selector.word_spec (s : Selector) : s.word ≠ [] ∧
    (∀ c ∈ s.word, Text.isBlank c = false) ∧ '=' ∉ s.word := by
  have hname (x : Identifier) : x.name.toList ≠ [] ∧
      (∀ c ∈ x.name.toList, Text.isBlank c = false) ∧ '=' ∉ x.name.toList :=
    ⟨x.isName.toList_ne_nil, x.not_blank, x.apart (by decide)⟩
  cases s with
  | member x => exact hname x
  | arrow x => exact hname x
  | renamed x => exact hname x
  | wildcard w =>
    have hblank : Text.isBlank w.sign = false := by cases w <;> decide
    have hsign : '=' ∉ [w.sign] := by cases w <;> decide
    refine ⟨List.cons_ne_nil _ _, fun c hc => ?_, hsign⟩
    rwa [List.mem_singleton.mp hc]

/-- Behind the word of a selector there is a blank or nothing. -/
theorem Placed.next_head (s : Placed) : ∀ c ∈ s.next.head?, Text.isBlank c = true := by
  have hgap (g : Gap) : ∀ c ∈ g.text.head?, Text.isBlank c = true := fun c hc =>
    g.blank c (List.mem_of_mem_head? hc)
  unfold Placed.next
  cases s.selector with
  | member => exact hgap _
  | arrow => exact hgap _
  | renamed => rintro c ⟨⟩; rfl
  | wildcard => exact hgap _

/-- A selector up to its arrow is its word and what comes next. -/
theorem Placed.upTo_arrow (s : Placed) :
    Text.upTo "=>".toList s.text = s.lead.text ++ (s.selector.word ++ s.next) := by
  have hgap (g : Gap) : '=' ∉ g.text := g.apart (by decide)
  have hname (x : Identifier) : '=' ∉ x.name.toList := x.apart (by decide)
  have hlead := hgap s.lead
  have htrail := hgap s.trail
  unfold Placed.text Placed.next
  cases s.selector with
  | member x =>
    have hnot : '=' ∉ s.lead.text ++ x.name.toList ++ s.trail.text := by
      simp [hlead, hname, htrail]
    exact (Text.upTo_of_notMem hnot).trans (List.append_assoc ..)
  | arrow x before after y =>
    have hnot : '=' ∉ s.lead.text ++ (x.name.toList ++ before.text) := by
      simp [hlead, hname, hgap]
    have hcut : Text.upTo ['=', '>'] (s.lead.text ++ (x.name.toList ++ before.text) ++
        (['=', '>'] ++ (after.text ++ (y.name.toList ++ s.trail.text)))) = _ :=
      Text.upTo_append hnot _
    rw [Text.upTo_self, List.append_nil] at hcut
    simp only [Selector.text, Selector.word, List.append_assoc] at hcut ⊢
    exact hcut
  | renamed x y =>
    have hnot : '=' ∉ s.lead.text ++ (x.name.toList ++
        (" as ".toList ++ (y.name.toList ++ s.trail.text))) := by
      have has : '=' ∉ " as ".toList := by decide
      simp only [List.mem_append, not_or]
      exact ⟨hlead, hname x, has, hname y, htrail⟩
    have hkept : Text.upTo ['=', '>'] _ = _ := Text.upTo_of_notMem hnot
    simp only [Selector.text, Selector.word, List.append_assoc] at hkept ⊢
    exact hkept
  | wildcard w =>
    have hw : '=' ∉ [w.sign] := by cases w <;> decide
    have hnot : '=' ∉ s.lead.text ++ [w.sign] ++ s.trail.text := by
      simp only [List.mem_append, not_or]
      exact ⟨⟨hlead, hw⟩, htrail⟩
    exact (Text.upTo_of_notMem hnot).trans (List.append_assoc ..)

/-- Among blanks the sign of an alias begins at most with the last one. -/
theorem upTo_as_gap {gap s : List Char} (hgap : ∀ c ∈ gap, Text.isBlank c = true)
    (h : gap.getLast? = some ' ' → Text.after? "as ".toList s = none) :
    Text.upTo " as ".toList (gap ++ s) = gap ++ Text.upTo " as ".toList s := by
  induction gap with
  | nil => rfl
  | cons c gap ih =>
    have hafter : Text.after? " as ".toList (c :: (gap ++ s)) = none := by
      by_cases hc : ' ' = c
      · have hstep : Text.after? " as ".toList (c :: (gap ++ s)) =
            Text.after? "as ".toList (gap ++ s) := if_pos hc
        rw [hstep]
        cases gap with
        | nil => exact h (hc ▸ rfl)
        | cons d gap =>
          have hd : 'a' ≠ d := by
            rintro rfl
            exact absurd (hgap 'a' (by simp)) (by decide)
          exact if_neg hd
      · exact if_neg hc
    have hlast : gap.getLast? = some ' ' → Text.after? "as ".toList s = none := by
      intro hlast
      apply h
      rw [List.getLast?_cons, hlast]
      rfl
    rw [List.cons_append, Text.upTo_cons hafter,
      ih (fun d hd => hgap d (List.mem_cons_of_mem c hd)) hlast, List.cons_append]

/-- A word begins the sign of an alias behind a space only if it is `as` before another space. -/
theorem eq_as_of_after {word next u : List Char} (hne : word ≠ [])
    (hword : ∀ c ∈ word, Text.isBlank c = false) (hnext : ∀ c ∈ next.head?, Text.isBlank c = true)
    (h : Text.after? "as ".toList (word ++ next) = some u) :
    word = "as".toList ∧ next.head? = some ' ' := by
  have htext : word ++ next = 'a' :: 's' :: ' ' :: u := Text.after?_eq_some_iff.mp h
  match word, hne with
  | [c], _ =>
    obtain ⟨-, rfl⟩ := List.cons.inj htext
    exact absurd (hnext 's' rfl) (by decide)
  | [c, d], _ =>
    obtain ⟨rfl, hrest⟩ := List.cons.inj htext
    obtain ⟨rfl, rfl⟩ := List.cons.inj hrest
    exact ⟨rfl, rfl⟩
  | c :: d :: e :: word, _ =>
    obtain ⟨-, hrest⟩ := List.cons.inj htext
    obtain ⟨-, hrest⟩ := List.cons.inj hrest
    obtain ⟨rfl, -⟩ := List.cons.inj hrest
    exact absurd (hword ' ' (by simp)) (by decide)

/-- What comes behind the word of a selector, up to an alias, is blank. -/
theorem Placed.upTo_as_next (s : Placed) :
    ∃ gap : Gap, Text.upTo " as ".toList s.next = gap.text := by
  have hgap (g : Gap) : Text.upTo " as ".toList g.text = g.text := by
    have hupTo := upTo_as_gap (s := []) g.blank fun _ => rfl
    rw [List.append_nil] at hupTo
    exact hupTo.trans (List.append_nil _)
  unfold Placed.next
  cases s.selector with
  | member => exact ⟨_, hgap _⟩
  | arrow x before => exact ⟨_, hgap before⟩
  | renamed x y =>
    dsimp only
    rw [List.append_assoc, Text.upTo_self]
    exact ⟨⟨[], fun c hc => nomatch hc⟩, rfl⟩
  | wildcard => exact ⟨_, hgap _⟩

/-- A hidden selector is cut at its own name, so that no name is left. -/
theorem selectorName_of_hidden {s : Placed} (h : s.Hidden) : selectorName s.text = [] := by
  obtain ⟨has, hlead, hspace⟩ := h
  obtain ⟨front, hfront⟩ := List.getLast?_eq_some_iff.mp hlead
  obtain ⟨rest, hrest⟩ := List.head?_eq_some_iff.mp hspace
  have hblank : ∀ c ∈ front, Text.isBlank c = true := fun c hc =>
    s.lead.blank c (hfront ▸ List.mem_append_left _ hc)
  have htext : s.lead.text ++ (s.selector.word ++ s.next) = front ++ (" as ".toList ++ rest) := by
    rw [has, hfront, hrest, List.append_assoc]
    rfl
  have hupTo := upTo_as_gap (s := " as ".toList ++ rest) hblank fun _ => rfl
  rw [Text.upTo_self] at hupTo
  rw [selectorName, s.upTo_arrow, htext, hupTo, Text.trim_gap_append hblank]
  rfl

/-- Of a selector that is not hidden its first word is read. -/
theorem selectorName_of_not_hidden {s : Placed} (h : ¬ s.Hidden) :
    selectorName s.text = s.selector.word := by
  obtain ⟨hne, hword, -⟩ := s.selector.word_spec
  have hafter : s.lead.text.getLast? = some ' ' →
      Text.after? "as ".toList (s.selector.word ++ s.next) = none := by
    intro hlead
    rw [Option.eq_none_iff_forall_not_mem]
    intro u hu
    obtain ⟨has, hspace⟩ := eq_as_of_after hne hword s.next_head hu
    exact h ⟨has, hlead, hspace⟩
  have hspace : ' ' ∉ s.selector.word := fun hmem => absurd (hword ' ' hmem) (by decide)
  have hkept : Text.upTo " as ".toList (s.selector.word ++ s.next) =
      s.selector.word ++ Text.upTo " as ".toList s.next := Text.upTo_append hspace _
  obtain ⟨gap, hgap⟩ := s.upTo_as_next
  rw [selectorName, s.upTo_arrow, upTo_as_gap s.lead.blank hafter, hkept, hgap,
    Text.trim_gap_append s.lead.blank, Text.trim_append_gap gap.blank,
    (Text.trimmed_of_not_blank hne hword).trim_eq]

/-- A selector is read as a path below the one before its group, if it is not hidden. -/
theorem selectorPath?_text (outer : Path) (s : Placed) : selectorPath? outer.text s.text =
    if s.Hidden then none else some (s.selector.path outer) := by
  rw [selectorPath?]
  by_cases hhidden : s.Hidden
  · rw [if_pos hhidden, selectorName_of_hidden hhidden]
    rfl
  · rw [if_neg hhidden, selectorName_of_not_hidden hhidden,
      if_neg (mt List.isEmpty_iff.mp s.selector.word_spec.1)]
    have hmember (x : Identifier) : ¬ (x.name.toList = ['_'] ∨ x.name.toList = ['*']) :=
      not_or.mpr ⟨x.ne_sign .underscore, x.ne_sign .star⟩
    cases s.selector with
    | member x => exact if_neg (hmember x)
    | arrow x => exact if_neg (hmember x)
    | renamed x => exact if_neg (hmember x)
    | wildcard w => cases w <;> rfl

end Selectors

section Reading

/-- The paths of a clause without those of its hidden selectors. -/
def Clause.read : Clause → List (List Char)
  | .plain path _ => [path.text]
  | .list outer _ first rest =>
    ((first :: rest).filter fun s => ¬ s.Hidden).map fun s => s.selector.path outer

theorem plainPath_of_upTo {s path : List Char} (h : Text.upTo " as ".toList s = path)
    (htrimmed : Text.Trimmed path) : plainPath s =
      ((Text.before? ['.', '_'] path).orElse fun _ => Text.before? ['.', '*'] path).getD path := by
  have htrim : Text.trim (Text.upTo " as ".toList s) = path := by rw [h, htrimmed.trim_eq]
  unfold plainPath
  rw [htrim]

/-- Whatever ends a plain clause, its path is read. -/
theorem plainPath_text (p : Path) (e : Ending) : plainPath (p.text ++ e.text) = p.text := by
  have hspace : ' ' ∉ p.text := p.apart (by decide) (by decide)
  have hunder : Text.before? ['.', '_'] p.text = none := p.before?_wildcard .underscore
  have hstar : Text.before? ['.', '*'] p.text = none := p.before?_wildcard .star
  cases e with
  | none =>
    have hkept : Text.upTo [' ', 'a', 's', ' '] p.text = p.text := Text.upTo_of_notMem hspace
    rw [Ending.text, List.append_nil, plainPath_of_upTo hkept p.trimmed, hunder, hstar]
    rfl
  | renamed x =>
    have hcut : Text.upTo [' ', 'a', 's', ' ']
        (p.text ++ ([' ', 'a', 's', ' '] ++ x.name.toList)) = p.text := by
      rw [Text.upTo_append hspace, Text.upTo_self, List.append_nil]
    have hread := plainPath_of_upTo hcut p.trimmed
    rw [hunder, hstar] at hread
    exact hread
  | wildcard w =>
    have hsign : ' ' ∉ p.text ++ ['.', w.sign] := by
      cases w <;> simp [hspace, Wildcard.sign]
    have hkept : Text.upTo [' ', 'a', 's', ' '] (p.text ++ ['.', w.sign]) = _ :=
      Text.upTo_of_notMem hsign
    have hread := plainPath_of_upTo hkept (Ending.trimmed_append p (.wildcard w))
    have hbefore : Text.before? ['.', w.sign] (p.text ++ ['.', w.sign]) = some p.text :=
      Text.before?_eq_some_iff.mpr rfl
    rw [Ending.text, hread]
    cases w with
    | underscore =>
      rw [Wildcard.sign] at hbefore ⊢
      rw [hbefore]
      rfl
    | star =>
      have hother : Text.before? ['.', '_'] (p.text ++ ['.', '*']) = none := by
        rw [Option.eq_none_iff_forall_not_mem]
        intro rest hrest
        have hlast := congrArg List.getLast? (Text.before?_eq_some_iff.mp hrest)
        simp at hlast
      rw [Wildcard.sign] at hbefore ⊢
      rw [hother, hbefore]
      rfl

/-- Of a group the selectors that are not hidden are read, in their order. -/
theorem selectors_read (outer : Path) (l : List Placed) :
    (l.map Placed.text).filterMap (selectorPath? outer.text) =
      (l.filter fun s => ¬ s.Hidden).map fun s => s.selector.path outer := by
  induction l with
  | nil => rfl
  | cons s l ih =>
    by_cases hhidden : s.Hidden
    · rw [List.map_cons, List.filterMap_cons_none (by rw [selectorPath?_text, if_pos hhidden]), ih,
        List.filter_cons_of_neg (by simpa using hhidden)]
    · have hpath : selectorPath? outer.text s.text = some (s.selector.path outer) := by
        rw [selectorPath?_text, if_neg hhidden]
      rw [List.map_cons, List.filterMap_cons_some hpath, ih,
        List.filter_cons_of_pos (by simpa using hhidden), List.map_cons]

/-- A braced list is cut in front of its selectors. -/
theorem splitOnce?_list (outer : Path) (brace : Gap) (first : Placed) (rest : List Placed) :
    Text.splitOnce? ['\x7b'] (Clause.list outer brace first rest).text =
      some (outer.text ++ '.' :: brace.text,
        Text.join [','] ((first :: rest).map Placed.text) ++ ['\x7d']) := by
  have hbrace : '\x7b' ∉ outer.text ++ '.' :: brace.text := by
    rw [List.mem_append, List.mem_cons, not_or, not_or]
    exact ⟨outer.cut_notMem (by decide), by decide, brace.apart (by decide)⟩
  have hcut : Text.splitOnce? ['\x7b'] ((outer.text ++ '.' :: brace.text) ++ (['\x7b'] ++
      (Text.join [','] ((first :: rest).map Placed.text) ++ ['\x7d']))) = _ :=
    Text.splitOnce?_append hbrace _
  rw [Text.splitOnce?_self] at hcut
  simpa [Clause.text] using hcut

/-- The selectors of a braced list stand between its commas. -/
theorem fields_selectors (first : Placed) (rest : List Placed) :
    Text.fields ',' (Text.trimEndWhile (· == '\x7d')
      (Text.join [','] ((first :: rest).map Placed.text) ++ ['\x7d'])) =
        (first :: rest).map Placed.text := by
  have hend : Text.trimEndWhile (· == '\x7d')
      (Text.join [','] ((first :: rest).map Placed.text) ++ ['\x7d']) =
        Text.join [','] ((first :: rest).map Placed.text) := by
    apply Text.trimEndWhile_append
    · intro c hc
      have hne : c ≠ '\x7d' := fun heq =>
        join_cut_notMem (by decide) (by decide) (first :: rest) (heq ▸ hc)
      simpa using hne
    · simp
  rw [hend, Text.join_eq_intercalate]
  apply Text.fields_intercalate
  · exact List.cons_ne_nil _ _
  · intro part hpart
    obtain ⟨s, -, rfl⟩ := List.mem_map.mp hpart
    exact s.cut_notMem (by decide)

/-- What is read of a clause, whatever blanks stand around it. -/
theorem clausePaths_text (k : Clause) (lead trail : Gap) :
    clausePaths (lead.text ++ (k.text ++ trail.text)) = k.read := by
  have htrim : Text.trim (lead.text ++ (k.text ++ trail.text)) = k.text := by
    rw [Text.trim_gap_append lead.blank, Text.trim_append_gap trail.blank, k.trimmed.trim_eq]
  unfold clausePaths
  rw [htrim]
  cases k with
  | plain path ending =>
    have hbrace : '\x7b' ∉ path.text ++ ending.text := by
      rw [List.mem_append, not_or]
      exact ⟨path.cut_notMem (by decide), ending.cut_notMem (by decide)⟩
    have hnone : Text.splitOnce? ['\x7b'] (path.text ++ ending.text) = none :=
      Text.splitOnce?_of_notMem hbrace
    have hdotted : dottedChars (path.text ++ []) = path.text :=
      path.dottedChars_append fun c hc => nomatch hc
    rw [List.append_nil] at hdotted
    simp only [Clause.text, hnone, plainPath_text, hdotted, Clause.read]
  | list outer brace first rest =>
    have hdotted : dottedChars (outer.text ++ '.' :: brace.text) = outer.text := by
      apply outer.dottedChars_append
      intro c hc
      rcases List.mem_cons.mp hc with rfl | hc
      · rfl
      · rw [isGap, brace.blank c hc, Bool.or_true]
    simp only [splitOnce?_list, hdotted, fields_selectors, selectors_read, Clause.read]

/-- No comma of a clause stands outside its braces. -/
theorem clauses_clause_append (k : Clause) (t : List Char) :
    clauses 0 (k.text ++ t) = (clauses 0 t).modifyHead (k.text ++ ·) := by
  cases k with
  | plain path ending =>
    have hcut {c : Char} (hc : c ∈ cuts) : c ∉ path.text ++ ending.text := by
      rw [List.mem_append, not_or]
      exact ⟨path.cut_notMem hc, ending.cut_notMem hc⟩
    exact clauses_append (fun _ => hcut (by decide)) (hcut (by decide)) (hcut (by decide)) t
  | list outer brace first rest =>
    have hfront {c : Char} (hc : c ∈ cuts) : c ∉ outer.text ++ '.' :: brace.text := by
      obtain ⟨hblank, -, hsign, -⟩ := cuts_spec hc
      rw [List.mem_append, List.mem_cons, not_or, not_or]
      exact ⟨outer.cut_notMem hc, fun hdot => hsign (hdot ▸ List.mem_cons_self),
        brace.apart hblank⟩
    have hinner {c : Char} (hc : c ∈ cuts) (hne : c ≠ ',') :=
      join_cut_notMem hc hne (first :: rest)
    have htext : (Clause.list outer brace first rest).text ++ t =
        (outer.text ++ '.' :: brace.text) ++ '\x7b' ::
          (Text.join [','] ((first :: rest).map Placed.text) ++ '\x7d' :: t) := by
      simp [Clause.text]
    have hopen : depthBehind 0 '\x7b' = 1 := rfl
    have hclose : depthBehind 1 '\x7d' = 0 := rfl
    rw [htext, clauses_append (fun _ => hfront (by decide)) (hfront (by decide))
        (hfront (by decide)),
      clauses_cons (fun _ => by decide), hopen,
      clauses_append (fun h => absurd h (by decide)) (hinner (by decide) (by decide))
        (hinner (by decide) (by decide)),
      clauses_cons (fun h => absurd h (by decide)), hclose]
    simp only [List.modifyHead_modifyHead]
    congr 1
    funext part
    simp [Clause.text]

/-- The parts of the text of an import are read one by one. -/
theorem flatMap_clauses (lead : Gap) (first : Clause) (rest : List Further) :
    (clauses 0 (lead.text ++ (first.text ++ rest.flatMap Further.text))).flatMap clausePaths =
      (first :: rest.map Further.clause).flatMap Clause.read := by
  have hgap (g : Gap) (t : List Char) :
      clauses 0 (g.text ++ t) = (clauses 0 t).modifyHead (g.text ++ ·) :=
    clauses_append (fun _ => g.apart (by decide)) (g.apart (by decide)) (g.apart (by decide)) t
  induction rest generalizing lead first with
  | nil =>
    have hread := clausePaths_text first lead ⟨[], fun c hc => nomatch hc⟩
    rw [hgap, clauses_clause_append]
    simpa [clauses] using hread
  | cons f rest ih =>
    have hrest := ih f.after f.clause
    have htext : (f :: rest).flatMap Further.text = f.before.text ++ ',' ::
        (f.after.text ++ (f.clause.text ++ rest.flatMap Further.text)) := by
      simp [Further.text]
    rw [htext, hgap, clauses_clause_append, hgap, clauses_comma, List.modifyHead_cons,
      List.modifyHead_cons, List.modifyHead_cons, List.append_nil, List.flatMap_cons,
      clausePaths_text, hrest, List.map_cons, List.flatMap_cons, List.flatMap_cons,
      List.flatMap_cons]

/-- The body of an import is its clauses, without the keyword. -/
theorem importBody_text (i : Import) :
    importBody i.text.toList = i.first.text ++ i.rest.flatMap Further.text := by
  have htrimmed := trimmed_clauses i.first i.rest
  -- The keyword stays a variable, for the text behind it is found whatever it is.
  have hbody {keyword : List Char} (hkeyword : Text.Trimmed keyword) : Text.trim
      ((Text.after? keyword (Text.trim (keyword ++ (i.lead.text ++
        (i.first.text ++ i.rest.flatMap Further.text)) ++ i.trail.text))).getD i.text.toList) =
      i.first.text ++ i.rest.flatMap Further.text := by
    have hafter : Text.after? keyword (keyword ++
        (i.lead.text ++ (i.first.text ++ i.rest.flatMap Further.text))) = some _ :=
      Text.after?_eq_some_iff.mpr rfl
    rw [Text.trim_append_gap i.trail.blank, (hkeyword.append htrimmed i.lead.text).trim_eq, hafter,
      Option.getD_some, Text.trim_gap_append i.lead.blank, htrimmed.trim_eq]
  have htext : i.text.toList = "import".toList ++
      (i.lead.text ++ (i.first.text ++ i.rest.flatMap Further.text)) ++ i.trail.text := by
    unfold Import.text
    generalize "import".toList = keyword
    simp only [String.toList_ofList, List.append_assoc]
  have hkeyword : Text.Trimmed "import".toList := by
    have hblank : ∀ c ∈ "import".toList, (!Text.isBlank c) = true :=
      List.all_eq_true.mp (by decide +kernel)
    refine Text.trimmed_of_not_blank (by decide +kernel) fun c hc => ?_
    rw [← Bool.not_eq_true']
    exact hblank c hc
  have hread := hbody hkeyword
  rw [← htext] at hread
  exact hread

theorem Path.ne_nil (p : Path) : p.text ≠ [] := by
  cases p with
  | one x => exact x.isName.toList_ne_nil
  | step x rest => exact List.append_ne_nil_of_left_ne_nil x.isName.toList_ne_nil _

theorem Selector.path_ne_nil (outer : Path) (s : Selector) : s.path outer ≠ [] := by
  have hmember (x : Identifier) : outer.text ++ '.' :: x.name.toList ≠ [] :=
    List.append_ne_nil_of_left_ne_nil outer.ne_nil _
  cases s with
  | member x => exact hmember x
  | arrow x => exact hmember x
  | renamed x => exact hmember x
  | wildcard => exact outer.ne_nil

end Reading

section Import

/-- What is read off the text of an import: its paths without those of hidden selectors. -/
theorem importPaths_text (i : Import) :
    importPaths i.text = (i.clauses.flatMap Clause.read).map String.ofList := by
  have hne : ∀ path ∈ i.clauses.flatMap Clause.read, (!path.isEmpty) = true := by
    intro path hpath
    obtain ⟨k, -, hk⟩ := List.mem_flatMap.mp hpath
    have hpath : path ≠ [] := by
      cases k with
      | plain p ending => exact List.mem_singleton.mp hk ▸ (p.ne_nil)
      | list outer brace first rest =>
        obtain ⟨s, -, rfl⟩ := List.mem_map.mp hk
        exact s.selector.path_ne_nil outer
    simpa using hpath
  have hread := flatMap_clauses ⟨[], fun c hc => nomatch hc⟩ i.first i.rest
  rw [List.nil_append] at hread
  rw [importPaths, importBody_text, hread, ← Import.clauses, List.filter_eq_self.mpr hne]

theorem Clause.read_sublist (k : Clause) : k.read.Sublist k.paths := by
  cases k with
  | plain => exact List.Sublist.refl _
  | list => exact List.filter_sublist.map _

/-- A clause is read in full exactly if none of its selectors is hidden. -/
theorem Clause.read_eq_iff (k : Clause) :
    k.read = k.paths ↔ ∀ s ∈ k.selectors, ¬ s.Hidden := by
  cases k with
  | plain path ending => exact ⟨fun _ _ hs => (nomatch hs), fun _ => rfl⟩
  | list outer brace first rest =>
    constructor
    · intro heq s hs
      have hlength := congrArg List.length heq
      rw [Clause.read, Clause.paths, List.length_map, List.length_map,
        List.length_filter_eq_length_iff] at hlength
      simpa using hlength s hs
    · intro h
      rw [Clause.read, List.filter_eq_self.mpr fun s hs => by simpa using h s hs]
      rfl

/-- Every path that an import names is read off its text, unless one of its selectors is hidden. -/
theorem importPaths_iff (i : Import) :
    importPaths i.text = i.paths ↔ ∀ k ∈ i.clauses, ∀ s ∈ k.selectors, ¬ s.Hidden := by
  have hinj (l l' : List (List Char)) :
      l.map String.ofList = l'.map String.ofList ↔ l = l' :=
    List.map_inj_right fun s t h => String.ofList_injective h
  calc importPaths i.text = i.paths
    _ ↔ i.clauses.flatMap Clause.read = i.clauses.flatMap Clause.paths := by
      rw [importPaths_text, Import.paths, hinj]
    _ ↔ ∀ k ∈ i.clauses, k.read = k.paths :=
      Pieces.flatMap_eq_iff_of_sublist fun k _ => k.read_sublist
    _ ↔ ∀ k ∈ i.clauses, ∀ s ∈ k.selectors, ¬ s.Hidden :=
      forall₂_congr fun k _ => k.read_eq_iff

def memberAs : Import :=
  let space : Gap := ⟨[' '], List.all_eq_true.mp (by decide)⟩
  let none : Gap := ⟨[], List.all_eq_true.mp (by decide)⟩
  let a : Identifier := ⟨"a", by decide, by decide, List.all_eq_true.mp (by decide)⟩
  let as : Identifier := ⟨"as", by decide, by decide, List.all_eq_true.mp (by decide)⟩
  let member : Placed := ⟨space, .member as, space⟩
  ⟨space, .list (.one a) none member [], [], none⟩

example : memberAs.text = "import a.\x7b as \x7d" := by decide +kernel

/-- The import of a member called `as` is lost between two spaces. -/
theorem import_of_as_lost : ¬ ∀ i : Import, importPaths i.text = i.paths := by
  intro h
  have hread : importPaths memberAs.text = [] := by decide +kernel
  have hpaths : memberAs.paths = ["a.as"] := by decide +kernel
  have heq := h memberAs
  rw [hread, hpaths] at heq
  cases heq

end Import

end CodeAtlas.Grammar.Scala
