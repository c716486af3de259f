import Mathlib.Data.Bool.AllAny
import SqlDbPlugin.Api.Proposals
import SqlDbPlugin.Lib.Quoted

/-!
# The search of `get_proposal`

`get_proposal` finds the proposals that name an account by a text search in
the requested approvals, which are stored as JSON. The text searched for
ends with the quotes around the account, so it is found only where an actor
is stored (`like_levels`), and a name has no character that is special in the
pattern or in the statement (`proposal_search`).
-/

namespace SqlDb

open ActionsTable (like)
open Quoted (quoted quoted_cons quoted_append mem_quoted quoted_infix_iff)

variable {L : ApiLib}

/-! ## The statement -/

/-- The pattern of `get_proposal`. -/
def proposalPattern (account : String) : String :=
  let acc := "\"actor\":\"" ++ account ++ "\""
  "%" ++ acc ++ "%"

/-- The statement of `get_proposal`. -/
def proposalStatement (account : String) : String :=
  let acc := "\"actor\":\"" ++ account ++ "\""
  "select proposer, proposal_name from proposal where requested_approvals like '%" ++ acc ++
    "%' order by id "

theorem getProposal_eq (account : String) :
    ActionsTable.getProposal L account = Sql.query fun d => d.proposal.contents.filter fun r =>
      like L.sameChar (proposalPattern account).toList r.requestedApprovals.toList := rfl

/-- What `\` and a character stand for in a quoted text; `\%` and `\_` are left to the pattern. -/
def escaped : Char → List Char
  | '0' => [Char.ofNat 0]
  | 'b' => [Char.ofNat 8]
  | 'n' => ['\n']
  | 'r' => ['\r']
  | 't' => ['\t']
  | 'Z' => [Char.ofNat 26]
  | '%' => ['\\', '%']
  | '_' => ['\\', '_']
  | c => [c]

/-- What a quoted text in a statement stands for, and what is behind it, from behind its first quote. -/
def readQuoted : List Char → Option (List Char × List Char)
  | [] => none
  | '\'' :: '\'' :: rest => (readQuoted rest).map fun (value, rest) => ('\'' :: value, rest)
  | '\'' :: rest => some ([], rest)
  | '\\' :: c :: rest => (readQuoted rest).map fun (value, rest) => (escaped c ++ value, rest)
  | c :: rest => (readQuoted rest).map fun (value, rest) => (c :: value, rest)

/-- A statement around its first quoted text. -/
def readStatement (statement : List Char) : Option (List Char × List Char × List Char) :=
  (readQuoted ((statement.dropWhile (· ≠ '\'')).drop 1)).map fun (value, rest) =>
    (statement.takeWhile (· ≠ '\''), value, rest)

theorem readQuoted_append {value rest : List Char} (hvalue : ∀ c ∈ value, c ≠ '\'' ∧ c ≠ '\\')
    (hrest : rest.head? ≠ some '\'') : readQuoted (value ++ '\'' :: rest) = some (value, rest) := by
  induction value with
  | nil =>
    rcases rest with _ | ⟨c, rest⟩
    · rfl
    · rw [List.nil_append, readQuoted]
      rintro rest' h
      cases h
      exact hrest rfl
  | cons c value ih =>
    obtain ⟨⟨hquote, hslash⟩, hvalue⟩ := List.forall_mem_cons.mp hvalue
    rw [List.cons_append, readQuoted, ih hvalue]
    · rfl
    · rintro rest' rfl h
      exact hquote rfl
    · exact hquote
    · rintro c' rest' rfl h
      exact hslash rfl

theorem readStatement_append {before value rest : List Char} (hbefore : ∀ c ∈ before, c ≠ '\'')
    (hvalue : ∀ c ∈ value, c ≠ '\'' ∧ c ≠ '\\') (hrest : rest.head? ≠ some '\'') :
    readStatement (before ++ '\'' :: (value ++ '\'' :: rest)) = some (before, value, rest) := by
  have hbefore : ∀ c ∈ before, decide (c ≠ '\'') = true := fun c hc => decide_eq_true (hbefore c hc)
  rw [readStatement, List.dropWhile_append_of_pos hbefore, List.takeWhile_append_of_pos hbefore,
    List.dropWhile_cons_of_neg (by decide), List.takeWhile_cons_of_neg (by decide), List.drop_one,
    List.tail_cons, readQuoted_append hvalue hrest, List.append_nil]
  rfl

/-! ## The pattern's matches -/

theorem like_append {same : Char → Char → Bool} {p text : List Char}
    (hp : ∀ c ∈ p, c ≠ '%' ∧ c ≠ '_' ∧ c ≠ '\\')
    (hsame : ∀ c ∈ p, ∀ c' ∈ text, same c c' = true ↔ c = c') :
    like same (p ++ ['%']) text = true ↔ p <+: text := by
  induction p generalizing text with
  | nil =>
    rw [List.nil_append, like, List.any_eq_true]
    exact iff_of_true ⟨[], (List.mem_tails _ _).mpr List.nil_suffix, rfl⟩ List.nil_prefix
  | cons c p ih =>
    obtain ⟨⟨hany, hone, hslash⟩, hp⟩ := List.forall_mem_cons.mp hp
    rcases text with _ | ⟨c', text⟩
    · rw [List.cons_append, like]
      · exact iff_of_false nofun (by simp)
      · exact hany
      · exact hone
      · exact fun _ _ h _ => hslash h
    · rw [List.cons_append, like, Bool.and_eq_true, List.cons_prefix_cons,
        hsame c List.mem_cons_self c' List.mem_cons_self, ih hp fun d hd d' hd' =>
          hsame d (List.mem_cons_of_mem c hd) d' (List.mem_cons_of_mem c' hd')]
      · exact hany
      · exact hone
      · exact fun _ _ h _ => hslash h

/-- A text in the middle of a pattern is searched for. -/
theorem like_middle {same : Char → Char → Bool} {p text : List Char}
    (hp : ∀ c ∈ p, c ≠ '%' ∧ c ≠ '_' ∧ c ≠ '\\')
    (hsame : ∀ c ∈ p, ∀ c' ∈ text, same c c' = true ↔ c = c') :
    like same ('%' :: (p ++ ['%'])) text = true ↔ p <:+: text := by
  rw [like, List.any_eq_true, List.infix_iff_prefix_suffix]
  refine exists_congr fun t => ?_
  rw [List.mem_tails, and_comm]
  refine and_congr_left fun ht => like_append hp fun c hc c' hc' => hsame c hc c' (ht.subset hc')

/-! ## The levels -/

def levelJson (level : PermissionLevel) : String :=
  "\x7b\"actor\":\"" ++ level.actor.str ++ "\",\"permission\":\"" ++ level.permission.str ++ "\"\x7d"

/-- The compact JSON of a list of levels. -/
def levelsJson : List PermissionLevel → String
  | [] => "[]"
  | level :: levels =>
    "[" ++ levelJson level ++ String.join (levels.map fun level => "," ++ levelJson level) ++ "]"

/-- `fc::json::to_string` prints the levels compactly. -/
def CompactLevels (L : ApiLib) : Prop :=
  ∀ levels : List PermissionLevel, (L.toJson (.array (levels.map (·.toVariant)))).text = levelsJson levels

/-- The characters of names, and the others of their JSON. -/
def levelChars : List Char := nameAlphabet ++ "[]\x7b\x7d\",:".toList

/-- The collation tells these characters apart. -/
def PlainCollation (L : ApiLib) : Prop :=
  ∀ c ∈ levelChars, ∀ c' ∈ levelChars, L.sameChar c c' = true ↔ c = c'

/-- What stands between the quotes of a level. -/
def levelPieces (level : PermissionLevel) : List (List Char) :=
  ["actor".toList, ":".toList, level.actor.str.toList, ",".toList, "permission".toList, ":".toList,
    level.permission.str.toList]

/-- What stands between the quotes of a list of levels. -/
def levelsPieces (level : PermissionLevel) (levels : List PermissionLevel) : List (List Char) :=
  levelPieces level ++ levels.flatMap fun level => "\x7d,\x7b".toList :: levelPieces level

theorem toList_levelJson (level : PermissionLevel) :
    (levelJson level).toList = '\x7b' :: (quoted '"' (levelPieces level) ++ ['"', '\x7d']) := by
  simp [levelJson, levelPieces, quoted]

/-- The levels behind the first one, with the end of the one in front of them. -/
theorem toList_join_levels (levels : List PermissionLevel) :
    '"' :: '\x7d' :: ((String.join (levels.map fun level => "," ++ levelJson level)).toList ++ [']']) =
      quoted '"' (levels.flatMap fun level => "\x7d,\x7b".toList :: levelPieces level) ++
        '"' :: ['\x7d', ']'] := by
  induction levels with
  | nil => simp [quoted]
  | cons level levels ih =>
    rw [List.map_cons, String.join_cons, String.toList_append, String.toList_append, toList_levelJson]
    simp only [List.flatMap_cons, quoted_cons, quoted_append, List.cons_append, List.append_assoc, ← ih]
    rfl

theorem toList_levelsJson (level : PermissionLevel) (levels : List PermissionLevel) :
    (levelsJson (level :: levels)).toList =
      ['[', '\x7b'] ++ (quoted '"' (levelsPieces level levels) ++ '"' :: ['\x7d', ']']) := by
  have hlevels := toList_join_levels levels
  rw [levelsJson, String.toList_append, String.toList_append, String.toList_append, toList_levelJson,
    levelsPieces, quoted_append, List.append_assoc (quoted _ _) (quoted _ _), ← hlevels]
  simp

/-- The pieces `get_proposal` searches for. -/
def accountPieces (account : Name) : List (List Char) :=
  ["actor".toList, ":".toList, account.str.toList]

/-- In a level, an account is found only as its actor: no other piece has a colon behind it and the
key in front of that. -/
theorem search_levelPieces (account : Name) (level : PermissionLevel) {rest : List (List Char)}
    (hrest : rest.head? ≠ some ":".toList) :
    accountPieces account <:+: levelPieces level ++ rest ↔
      level.actor = account ∨ accountPieces account <:+: rest := by
  have hactor : account.str.toList = level.actor.str.toList ↔ level.actor = account := by
    rw [String.toList_inj, Name.str_inj, eq_comm]
  have hcolon : ¬accountPieces account <+: level.permission.str.toList :: rest := by
    rintro h
    rcases rest with _ | ⟨piece, rest⟩
    · simp [accountPieces] at h
    · have hpiece := (List.cons_prefix_cons.mp (List.cons_prefix_cons.mp h).2).1
      exact hrest (congrArg some hpiece.symm)
  rw [levelPieces]
  simp only [List.cons_append, List.nil_append, List.infix_cons_iff, hcolon, false_or]
  simp [accountPieces, hactor]

/-- In a list of levels too. -/
theorem search_levelsPieces (account : Name) (level : PermissionLevel) (levels : List PermissionLevel) :
    accountPieces account <:+: levelsPieces level levels ↔ ∃ l ∈ level :: levels, l.actor = account := by
  induction levels generalizing level with
  | nil =>
    rw [levelsPieces, search_levelPieces account level (by simp)]
    simp [accountPieces]
  | cons level' levels ih =>
    have hpieces : levelsPieces level (level' :: levels) =
        levelPieces level ++ "\x7d,\x7b".toList :: levelsPieces level' levels := rfl
    have hseparator : ¬accountPieces account <+: "\x7d,\x7b".toList :: levelsPieces level' levels := fun h =>
      absurd (List.cons_prefix_cons.mp h).1 (by decide)
    rw [hpieces, search_levelPieces account level (by simp), List.infix_cons_iff, ih,
      List.exists_mem_cons_iff (l := level' :: levels)]
    simp only [hseparator, false_or]

/-! ## The search -/

theorem Name.mem_nameAlphabet (n : Name) {c : Char} (hc : c ∈ n.str.toList) : c ∈ nameAlphabet := by
  have hall := (Bool.and_eq_true_iff.mp (Bool.and_eq_true_iff.mp (Bool.and_eq_true_iff.mp n.isText).1).1).2
  exact List.contains_iff_mem.mp (List.all_eq_true.mp hall c hc)

/-- No character of these is special in a pattern or in a quoted text. -/
theorem ne_of_mem_levelChars : ∀ c ∈ levelChars, c ≠ '%' ∧ c ≠ '_' ∧ c ≠ '\\' ∧ c ≠ '\'' :=
  List.all_iff_forall_prop.mp (by decide)

/-- A piece of the levels' JSON, without quotes. -/
def Plain (piece : List Char) : Prop := ∀ c ∈ piece, c ∈ levelChars ∧ c ≠ '"'

instance (piece : List Char) : Decidable (Plain piece) := List.decidableBAll _ piece

theorem Plain.quote_not_mem {piece : List Char} (h : Plain piece) : '"' ∉ piece := fun hc => (h _ hc).2 rfl

theorem Name.plain (n : Name) : Plain n.str.toList := by
  intro c hc
  have hc := n.mem_nameAlphabet hc
  refine ⟨List.mem_append_left _ hc, ?_⟩
  rintro rfl
  exact absurd hc (by decide)

theorem plain_accountPieces (account : Name) : ∀ piece ∈ accountPieces account, Plain piece := by
  simp only [accountPieces, List.forall_mem_cons]
  exact ⟨by decide, by decide, account.plain, List.forall_mem_nil _⟩

theorem plain_levelPieces (level : PermissionLevel) : ∀ piece ∈ levelPieces level, Plain piece := by
  simp only [levelPieces, List.forall_mem_cons]
  exact ⟨by decide, by decide, level.actor.plain, by decide, by decide, by decide, level.permission.plain,
    List.forall_mem_nil _⟩

theorem plain_levelsPieces (level : PermissionLevel) (levels : List PermissionLevel) :
    ∀ piece ∈ levelsPieces level levels, Plain piece := by
  refine List.forall_mem_append.mpr ⟨plain_levelPieces level, fun piece hpiece => ?_⟩
  obtain ⟨l, -, hpiece⟩ := List.mem_flatMap.mp hpiece
  rcases List.mem_cons.mp hpiece with rfl | hpiece
  · decide
  · exact plain_levelPieces l piece hpiece

theorem mem_levelChars_quoted {pieces : List (List Char)} (h : ∀ piece ∈ pieces, Plain piece) :
    ∀ c ∈ quoted '"' pieces, c ∈ levelChars := by
  intro c hc
  rcases mem_quoted hc with rfl | ⟨piece, hpiece, hc⟩
  · decide
  · exact (h piece hpiece c hc).1

/-- What `get_proposal` searches for. -/
def accountText (account : Name) : List Char := quoted '"' (accountPieces account) ++ ['"']

theorem toList_append_append (s t u : String) : (s ++ t ++ u).toList = s.toList ++ t.toList ++ u.toList := by
  rw [String.toList_append, String.toList_append]

theorem toList_accountText (account : Name) :
    ("\"actor\":\"" ++ account.str ++ "\"").toList = accountText account := by
  simp [accountText, accountPieces, quoted]

theorem toList_proposalPattern (account : Name) :
    (proposalPattern account.str).toList = '%' :: (accountText account ++ ['%']) := by
  refine (toList_append_append _ _ _).trans ?_
  rw [toList_accountText]
  rfl

theorem mem_levelChars_accountText (account : Name) : ∀ c ∈ accountText account, c ∈ levelChars :=
  List.forall_mem_append.mpr ⟨mem_levelChars_quoted (plain_accountPieces account),
    List.forall_mem_singleton.mpr (by decide)⟩

theorem mem_levelChars_levelsJson (levels : List PermissionLevel) :
    ∀ c ∈ (levelsJson levels).toList, c ∈ levelChars := by
  rcases levels with _ | ⟨level, levels⟩
  · exact List.all_iff_forall_prop.mp (by decide)
  · rw [toList_levelsJson]
    refine List.forall_mem_append.mpr ⟨List.all_iff_forall_prop.mp (by decide), ?_⟩
    exact List.forall_mem_append.mpr ⟨mem_levelChars_quoted (plain_levelsPieces level levels),
      List.all_iff_forall_prop.mp (by decide)⟩

/-- The account is found in the JSON of the levels that have it as an actor. -/
theorem infix_levelsJson (account : Name) (levels : List PermissionLevel) :
    accountText account <:+: (levelsJson levels).toList ↔ ∃ level ∈ levels, level.actor = account := by
  rcases levels with _ | ⟨level, levels⟩
  · refine iff_of_false (fun h => ?_) (by simp)
    exact absurd (h.subset (List.mem_append_right _ (List.mem_singleton_self '"'))) (by decide)
  · rw [toList_levelsJson, accountText, ← search_levelsPieces]
    exact quoted_infix_iff (fun p hp => (plain_accountPieces account p hp).quote_not_mem)
      (fun p hp => (plain_levelsPieces level levels p hp).quote_not_mem) (by decide) (by decide)

/-- The pattern matches the levels that have the account as an actor. -/
theorem like_levels (hsame : PlainCollation L) (account : Name) (levels : List PermissionLevel) :
    like L.sameChar (proposalPattern account.str).toList (levelsJson levels).toList = true ↔
      ∃ level ∈ levels, level.actor = account := by
  have hchars := mem_levelChars_accountText account
  rw [toList_proposalPattern, ← infix_levelsJson]
  refine like_middle (fun c hc => ?_) fun c hc c' hc' => ?_
  · obtain ⟨hany, hone, hslash, -⟩ := ne_of_mem_levelChars c (hchars c hc)
    exact ⟨hany, hone, hslash⟩
  · exact hsame c (hchars c hc) c' (mem_levelChars_levelsJson levels c' hc')

/-- The statement in front of the pattern. -/
def beforePattern : List Char :=
  "select proposer, proposal_name from proposal where requested_approvals like ".toList

/-- The statement has the pattern as its only quoted text. -/
theorem readStatement_proposalStatement (account : Name) :
    readStatement (proposalStatement account.str).toList =
      some (beforePattern, (proposalPattern account.str).toList, " order by id ".toList) := by
  have hstatement : (proposalStatement account.str).toList =
      beforePattern ++ '\'' :: ('%' :: (accountText account ++ ['%']) ++ '\'' :: " order by id ".toList) := by
    have hbefore : "select proposer, proposal_name from proposal where requested_approvals like '%".toList =
        beforePattern ++ ['\'', '%'] := by decide
    have hafter : "%' order by id ".toList = '%' :: '\'' :: " order by id ".toList := by decide
    refine (toList_append_append _ _ _).trans ?_
    rw [hbefore, hafter, toList_accountText]
    generalize beforePattern = before
    generalize " order by id ".toList = after
    simp only [List.append_assoc, List.cons_append, List.nil_append]
  rw [hstatement, toList_proposalPattern]
  refine readStatement_append (List.all_iff_forall_prop.mp (by decide)) ?_ (by decide)
  rw [List.forall_mem_cons, List.forall_mem_append]
  refine ⟨by decide, fun c hc => ?_, List.forall_mem_singleton.mpr (by decide)⟩
  obtain ⟨-, -, hslash, hsingle⟩ := ne_of_mem_levelChars c (mem_levelChars_accountText account c hc)
  exact ⟨hsingle, hslash⟩

theorem getProposal_ok {account : String} {w : World Exn Db} {matched : List ProposalRow}
    (h : ((ActionsTable.getProposal L account).run w).1 = .ok matched) :
    matched = w.db.proposal.contents.filter fun r =>
      like L.sameChar (proposalPattern account).toList r.requestedApprovals.toList := by
  rw [getProposal_eq, Sql.run_query_next] at h
  rcases hw : w.next with _ | e <;> rw [hw] at h <;> cases h
  rfl

/-- A row is found just if the levels it stores name the account. -/
theorem mem_getProposal (hjson : CompactLevels L) (hsame : PlainCollation L) {account : Name}
    {w : World Exn Db} {matched : List ProposalRow}
    (h : ((ActionsTable.getProposal L account.str).run w).1 = .ok matched) {row : ProposalRow}
    (hrow : row ∈ w.db.proposal.contents) {levels : List PermissionLevel}
    (hlevels : row.requestedApprovals = (L.toJson (.array (levels.map (·.toVariant)))).text) :
    row ∈ matched ↔ ∃ level ∈ levels, level.actor = account := by
  rw [getProposal_ok h, List.mem_filter, hlevels, hjson levels, like_levels hsame]
  exact and_iff_right hrow

/-- The search finds the proposals that name the account, and no others:
its pattern is the only quoted text of the statement, and has nothing
special from the account. -/
theorem proposal_search (L : ApiLib) (hjson : CompactLevels L) (hsame : PlainCollation L) (account : Name) :
    (∀ levels : List PermissionLevel,
      like L.sameChar (proposalPattern account.str).toList
          (L.toJson (.array (levels.map (·.toVariant)))).text.toList = true ↔
        ∃ level ∈ levels, level.actor = account) ∧
    (∀ (w : World Exn Db) (matched : List ProposalRow),
      ((ActionsTable.getProposal L account.str).run w).1 = .ok matched →
      ∀ row ∈ w.db.proposal.contents, ∀ levels : List PermissionLevel,
        row.requestedApprovals = (L.toJson (.array (levels.map (·.toVariant)))).text →
        (row ∈ matched ↔ ∃ level ∈ levels, level.actor = account)) ∧
    readStatement (proposalStatement account.str).toList =
      some (beforePattern, (proposalPattern account.str).toList, " order by id ".toList) ∧
    ∀ c ∈ account.str.toList, c ≠ '%' ∧ c ≠ '_' ∧ c ≠ '\\' ∧ c ≠ '\'' ∧ c ≠ '"' := by
  refine ⟨fun levels => ?_, fun w matched h row hrow levels hlevels => ?_,
    readStatement_proposalStatement account, fun c hc => ?_⟩
  · rw [hjson levels]
    exact like_levels hsame account levels
  · exact mem_getProposal hjson hsame h hrow hlevels
  · obtain ⟨hchar, hquote⟩ := account.plain c hc
    obtain ⟨hany, hone, hslash, hsingle⟩ := ne_of_mem_levelChars c hchar
    exact ⟨hany, hone, hslash, hsingle, hquote⟩

/-! ## A library that prints levels -/

theorem objectJson_toVariant (level : PermissionLevel) : objectJson level.toVariant = levelJson level := by
  rw [PermissionLevel.toVariant, objectJson, levelJson]
  simp [← String.toList_inj]

theorem ApiLib.levels_compact : CompactLevels ApiLib.levels := by
  rintro (_ | ⟨level, levels⟩)
  · rfl
  · show "[" ++ objectJson level.toVariant ++ String.join _ ++ "]" = _
    rw [objectJson_toVariant, levelsJson, List.map_map]
    simp only [Function.comp_def, objectJson_toVariant]

theorem ApiLib.levels_plain : PlainCollation ApiLib.levels := fun _ _ _ _ => decide_eq_true_iff

/-- `alice` is not found through an account that starts with its name, nor through a permission. -/
theorem proposal_search_alice :
    ¬like ApiLib.levels.sameChar (proposalPattern alice.str).toList
        (ApiLib.levels.toJson (.array ([⟨⟨"alice1", by decide⟩, alice⟩].map
          PermissionLevel.toVariant))).text.toList = true ∧
      like ApiLib.levels.sameChar (proposalPattern alice.str).toList
        (ApiLib.levels.toJson (.array ([⟨⟨"alice1", by decide⟩, alice⟩, aliceActive].map
          PermissionLevel.toVariant))).text.toList = true := by
  have h := (proposal_search ApiLib.levels ApiLib.levels_compact ApiLib.levels_plain alice).1
  exact ⟨mt (h _).mp (by decide), (h _).mpr (by decide)⟩

end SqlDb
