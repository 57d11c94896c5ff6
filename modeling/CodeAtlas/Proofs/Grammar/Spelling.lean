import CodeAtlas.Proofs.Naming.Steps
/-!
Paths as they are written, with blanks and comments between their names. The steps of such a text
are the names of the path if the comments hold nothing but dots and blanks (`Spells.nameSteps_eq`);
what else a comment holds stands in the steps as well (`Spells.weight_nameSteps`), beside the names
or, where a comment ends with a blank, as a part of the next one (`Spells.last_step`).
-/
namespace CodeAtlas.Grammar.Rust

/-- What may stand between the names of a path: blanks and comments. -/
inductive IsFiller : List Char → Prop
  | nil : IsFiller []
  | blank {c : Char} {s : List Char} (hc : Text.isBlank c = true) (hs : IsFiller s) :
      IsFiller (c :: s)
  | line {body s : List Char} (hbody : '\n' ∉ body) (hs : IsFiller s) :
      IsFiller ('/' :: '/' :: (body ++ '\n' :: s))
  | block {body s : List Char} (hs : IsFiller s) :
      IsFiller ('/' :: '*' :: (body ++ '*' :: '/' :: s))

/-- A text spells a path: whether it ends with a name, the names, and the fillers around the
colons. -/
inductive Spells : Bool → List Char → List String → List (List Char) → Prop
  | start : Spells false [] [] []
  | root {gap : List Char} (hgap : IsFiller gap) : Spells false (':' :: ':' :: gap) [] [gap]
  | name {text : List Char} {names : List String} {fillers : List (List Char)} {last : String}
      (h : Spells false text names fillers) (hlast : IsName last) :
      Spells true (text ++ last.toList) (names ++ [last]) fillers
  | colons {text lead gap : List Char} {names : List String} {fillers : List (List Char)}
      (h : Spells true text names fillers) (hlead : IsFiller lead) (hgap : IsFiller gap) :
      Spells false (text ++ lead ++ ':' :: ':' :: gap) names (fillers ++ [lead, gap])

section Edges

def isEdge (c : Char) : Bool :=
  c == '/' || Text.isBlank c

theorem isEdge_spec {c : Char} (h : isEdge c = true) :
    c ≠ ':' ∧ c ≠ '-' ∧ c ≠ '>' ∧ c ≠ '*' := by
  refine ⟨?_, ?_, ?_, ?_⟩ <;> rintro rfl <;> exact absurd h (by decide)

variable {filler : List Char}

theorem IsFiller.head (h : IsFiller filler) : ∀ c ∈ filler.head?, isEdge c = true := by
  cases h with
  | nil => intro c hc; cases hc
  | blank hc => rintro c ⟨⟩; rw [isEdge, hc, Bool.or_true]
  | line => rintro c ⟨⟩; rfl
  | block => rintro c ⟨⟩; rfl

/-- A filler ends with a blank or a slash. -/
theorem IsFiller.last (h : IsFiller filler) : ∀ c ∈ filler.getLast?, isEdge c = true := by
  have hbehind {c : Char} {s : List Char} (front : List Char) (hc : isEdge c = true)
      (hs : ∀ d ∈ s.getLast?, isEdge d = true) :
      ∀ d ∈ (front ++ c :: s).getLast?, isEdge d = true := by
    intro d hd
    rw [List.getLast?_append_of_ne_nil _ (List.cons_ne_nil c s), List.getLast?_cons] at hd
    obtain rfl := Option.some.inj hd
    cases hlast : s.getLast? with
    | none => exact hc
    | some e => exact hs e hlast
  induction h with
  | nil => intro c hc; cases hc
  | blank hc _ ih => exact hbehind [] (by rw [isEdge, hc, Bool.or_true]) ih
  | @line body s _ _ ih => exact hbehind ('/' :: '/' :: body) (by decide) ih
  | @block body s _ ih =>
    have hsplit : '/' :: '*' :: (body ++ '*' :: '/' :: s) =
        ('/' :: '*' :: (body ++ ['*'])) ++ '/' :: s := by simp
    exact hsplit ▸ hbehind _ rfl ih

theorem IsFiller.beginsApart (h : IsFiller filler) : BeginsApart filler := by
  intro c hc
  obtain ⟨hcolon, -, hangle, -⟩ := isEdge_spec (h.head c hc)
  exact ⟨hcolon, hangle⟩

theorem IsFiller.beginsApart_append (h : IsFiller filler) {rest : List Char}
    (hrest : BeginsApart rest) : BeginsApart (filler ++ rest) := by
  cases filler with
  | nil => exact hrest
  | cons c filler => exact h.beginsApart

theorem IsFiller.endsApart_append (h : IsFiller filler) {front : List Char}
    (hfront : EndsApart front) : EndsApart (front ++ filler) := by
  by_cases hne : filler = []
  · rwa [hne, List.append_nil]
  · intro c hc
    rw [List.getLast?_append_of_ne_nil _ hne] at hc
    obtain ⟨hcolon, hdash, -⟩ := isEdge_spec (h.last c hc)
    exact ⟨hcolon, hdash⟩

theorem isGap_dotSeparated_of_isEdge {c : Char} (hc : isEdge c = true) :
    ∃ d, dotSeparated [c] = [d] ∧ isGap d = true := by
  by_cases hslash : c = '/'
  · exact ⟨'.', by rw [hslash]; rfl, rfl⟩
  · have hblank : Text.isBlank c = true := by simpa [isEdge, hslash] using hc
    have hkept : dotSeparated [c] = [c] := by
      simp [dotSeparated, Text.replacePair, Text.replaceChar, hslash]
    exact ⟨c, hkept, by rw [isGap, hblank, Bool.or_true]⟩

/-- With its separators as dots, a filler ends with a dot or a blank. -/
theorem IsFiller.dotSeparated_eq (h : IsFiller filler) (hne : filler ≠ []) :
    ∃ front c, dotSeparated filler = front ++ [c] ∧ isGap c = true := by
  obtain ⟨front, c, rfl⟩ : ∃ front c, filler = front ++ [c] :=
    ⟨_, _, (List.dropLast_append_getLast hne).symm⟩
  have hc : isEdge c = true := h.last c (by simp)
  obtain ⟨d, hd, hgap⟩ := isGap_dotSeparated_of_isEdge hc
  refine ⟨dotSeparated front, d, ?_, hgap⟩
  rw [dotSeparated_append, hd]
  refine .inr fun e he => ?_
  obtain rfl := Option.some.inj he
  exact ⟨(isEdge_spec hc).1, (isEdge_spec hc).2.2.1⟩

end Edges

section Last

variable {name : String}

/-- A name ends without blanks, so that only those before it are trimmed. -/
theorem trim_append_name (h : IsName name) (s : List Char) :
    Text.trim (s ++ name.toList) = s.dropWhile Text.isBlank ++ name.toList := by
  have hdrop : name.toList.dropWhile Text.isBlank = name.toList := by
    obtain ⟨c, rest, hname⟩ := List.exists_cons_of_ne_nil h.toList_ne_nil
    rw [hname, List.dropWhile_cons, h.not_blank c (hname ▸ List.mem_cons_self),
      if_neg Bool.false_ne_true]
  have hfront : (s ++ name.toList).dropWhile Text.isBlank =
      s.dropWhile Text.isBlank ++ name.toList := by
    rw [List.dropWhile_append, hdrop]
    cases s.dropWhile Text.isBlank <;> rfl
  obtain ⟨front, c, hname⟩ : ∃ front c, name.toList = front ++ [c] :=
    ⟨_, _, (List.dropLast_append_getLast h.toList_ne_nil).symm⟩
  have hc : Text.isBlank c = false := h.not_blank c (by simp [hname])
  rw [Text.trim, Text.trimWhile, hfront, hname, ← List.append_assoc,
    Text.trimEndWhile_append_singleton hc]

/-- The last step of a text that ends with a name is that name, or it holds a blank. -/
theorem last_stepsIn {front : List Char} {c : Char} (hc : isGap c = true) (h : IsName name) :
    ∃ steps last, stepsIn (front ++ c :: name.toList) = steps ++ [last] ∧
      (last = name.toList ∨ ∃ d ∈ last, Text.isBlank d = true) := by
  by_cases hdot : c = '.'
  · exact ⟨stepsIn front, _, by rw [hdot, stepsIn_append_dot, h.stepsIn_eq], .inl rfl⟩
  have hblank : Text.isBlank c = true := by simpa [isGap, hdot] using hc
  have hlast {back : List Char} (hback : '.' ∉ back) : ∃ last,
      stepsIn (back ++ c :: name.toList) = [last] ∧
        (last = name.toList ∨ ∃ d ∈ last, Text.isBlank d = true) := by
    have hmore : '.' ∉ back ++ c :: name.toList := by
      simp [hback, Ne.symm hdot, h.dot_notMem]
    have htrim : Text.trim (back ++ c :: name.toList) =
        (back ++ [c]).dropWhile Text.isBlank ++ name.toList := by
      rw [← trim_append_name h, List.append_assoc, List.singleton_append]
    rw [stepsIn_of_notMem hmore, htrim, if_neg (by simp [h.toList_ne_nil])]
    refine ⟨_, rfl, ?_⟩
    -- The blank in front of the name is dropped only if nothing but blanks stands there.
    rw [List.dropWhile_append]
    cases hrest : back.dropWhile Text.isBlank with
    | nil => simp [hblank]
    | cons d rest => exact .inr ⟨c, by simp, hblank⟩
  rcases Text.notMem_or_eq_append_last '.' front with hfront | ⟨outer, back, rfl, hback⟩
  · obtain ⟨last, hsteps, hcases⟩ := hlast hfront
    exact ⟨[], last, hsteps, hcases⟩
  · obtain ⟨last, hsteps, hcases⟩ := hlast hback
    exact ⟨stepsIn outer, last, by rw [List.append_assoc, List.cons_append, stepsIn_append_dot,
      hsteps], hcases⟩

/-- Behind a filler a name is the last step, alone or with the end of a comment before it. -/
theorem last_step_of_filler {filler : List Char} (hfiller : IsFiller filler) (h : IsName name) :
    ∃ steps last, nameSteps (filler ++ name.toList) = steps ++ [last] ∧
      (last = name.toList ∨ ∃ d ∈ last, Text.isBlank d = true) := by
  rw [nameSteps_eq, dotSeparated_append (.inr h.beginsApart), h.dotSeparated_eq]
  by_cases hne : filler = []
  · rw [hne]
    exact ⟨[], name.toList, h.stepsIn_eq, .inl rfl⟩
  · obtain ⟨front, c, hfront, hc⟩ := hfiller.dotSeparated_eq hne
    rw [hfront, List.append_assoc, List.singleton_append]
    exact last_stepsIn hc h

end Last

section Spelled

variable {closed : Bool} {text : List Char} {names : List String} {fillers : List (List Char)}

theorem Spells.endsApart (h : Spells true text names fillers) : EndsApart text := by
  cases h with
  | @name text _ _ last _ hlast =>
    intro c hc
    rw [List.getLast?_append_of_ne_nil _ hlast.toList_ne_nil] at hc
    exact hlast.endsApart c hc

/-- If the fillers hold no step, the steps of the text are the names; behind colons the steps of
more text come after them. -/
theorem Spells.nameSteps_append (h : Spells closed text names fillers)
    (hfillers : ∀ f ∈ fillers, ¬ HasStep f) {rest : List Char} (hrest : BeginsApart rest)
    (hclosed : closed = true → rest = []) :
    nameSteps (text ++ rest) = names.map String.toList ++ nameSteps rest := by
  induction h generalizing rest with
  | start => rfl
  | @root gap hgap =>
    have hcut := nameSteps_colons endsApart_nil (hgap.beginsApart_append hrest)
    rw [nameSteps_of_not_hasStep_append (.inr hrest) (hfillers gap (by simp))] at hcut
    exact hcut
  | @name text names fillers last h hlast ih =>
    obtain rfl := hclosed rfl
    rw [List.append_nil, ih hfillers hlast.beginsApart (fun h => nomatch h), hlast.nameSteps_eq,
      List.map_append]
    exact (List.append_nil _).symm
  | @colons text lead gap names fillers h hlead hgap ih =>
    have hbefore := ih (fun f hf => hfillers f (List.mem_append_left _ hf)) beginsApart_nil
      fun _ => rfl
    rw [List.append_nil] at hbefore
    rw [List.append_assoc, List.cons_append, List.cons_append,
      nameSteps_colons (hlead.endsApart_append h.endsApart) (hgap.beginsApart_append hrest),
      nameSteps_append_of_not_hasStep (.inr hlead.beginsApart) (hfillers lead (by simp)), hbefore,
      nameSteps_of_not_hasStep_append (.inr hrest) (hfillers gap (by simp))]
    exact congrArg (· ++ _) (List.append_nil _)

theorem Spells.nameSteps_eq (h : Spells closed text names fillers)
    (hfillers : ∀ f ∈ fillers, ¬ HasStep f) : nameSteps text = names.map String.toList := by
  have hsteps := h.nameSteps_append hfillers beginsApart_nil fun _ => rfl
  rw [List.append_nil] at hsteps
  exact hsteps.trans (List.append_nil _)

/-- What the fillers hold besides dots and blanks stands in the steps beside the names. -/
theorem Spells.weight_nameSteps (h : Spells closed text names fillers) :
    weight (nameSteps text).flatten = weight (names.map String.toList).flatten +
      weight (fillers.map dotSeparated).flatten := by
  rw [CodeAtlas.weight_nameSteps]
  have hone (s : List Char) : weight [s].flatten = weight s := by
    rw [List.flatten_cons, List.flatten_nil, List.append_nil]
  induction h with
  | start => rfl
  | @root gap hgap =>
    have hcut := weight_colons endsApart_nil hgap.beginsApart
    rw [List.map_singleton, hone]
    exact hcut
  | @name text names fillers last h hlast ih =>
    rw [dotSeparated_append (.inr hlast.beginsApart), weight_append, ih, hlast.dotSeparated_eq,
      List.map_append, List.flatten_append, weight_append, List.map_singleton, hone]
    omega
  | @colons text lead gap names fillers h hlead hgap ih =>
    rw [weight_colons (hlead.endsApart_append h.endsApart) hgap.beginsApart,
      dotSeparated_append (.inr hlead.beginsApart), weight_append, ih, List.map_append,
      List.flatten_append, weight_append, List.map_cons, List.flatten_cons, weight_append,
      List.map_singleton, hone]
    omega

/-- The last step of a path that ends with a name is that name, unless the end of a comment is a
part of it. -/
theorem Spells.last_step (h : Spells true text names fillers) :
    ∃ steps last front name, nameSteps text = steps ++ [last] ∧ names = front ++ [name] ∧
      (last = name.toList ∨ ∃ c ∈ last, Text.isBlank c = true) := by
  cases h with
  | @name text names _ last h hlast =>
    cases h with
    | start => exact ⟨[], last.toList, [], last, hlast.nameSteps_eq, rfl, .inl rfl⟩
    | @root gap hgap =>
      obtain ⟨steps, final, hsteps, hfinal⟩ := last_step_of_filler hgap hlast
      have hcut := nameSteps_colons endsApart_nil (hgap.beginsApart_append hlast.beginsApart)
      exact ⟨steps, final, [], last, hcut.trans hsteps, rfl, hfinal⟩
    | @colons text lead gap _ fillers h hlead hgap =>
      obtain ⟨steps, final, hsteps, hfinal⟩ := last_step_of_filler hgap hlast
      refine ⟨nameSteps (text ++ lead) ++ steps, final, names, last, ?_, rfl, hfinal⟩
      rw [List.append_assoc, List.cons_append, List.cons_append,
        nameSteps_colons (hlead.endsApart_append h.endsApart)
          (hgap.beginsApart_append hlast.beginsApart), hsteps, List.append_assoc]

/-- What a path spells is names. -/
theorem Spells.isName (h : Spells closed text names fillers) : ∀ name ∈ names, IsName name := by
  induction h with
  | start => exact fun _ hname => nomatch hname
  | root => exact fun _ hname => nomatch hname
  | name _ hlast ih =>
    intro name hname
    rcases List.mem_append.mp hname with hname | hname
    · exact ih name hname
    · exact List.mem_singleton.mp hname ▸ hlast
  | colons _ _ _ ih => exact ih

end Spelled

end CodeAtlas.Grammar.Rust
