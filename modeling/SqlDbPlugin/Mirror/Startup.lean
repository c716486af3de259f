import SqlDbPlugin.Plugin

/-!
# Start-up

What `plugin_initialize` makes of the database before the signal is
connected. Which statement is which is known beforehand: the two pools take
six, `is_started` a session and the count (`countStatement`), and `wipe` a
session and the `INSERT` (`insertStatement`). `pluginInitialize_some` takes
a start-up that gets past the bootstrap branch apart.

`exist` returns what its local held before if the count query fails with a
`soci::mysql_soci_error`, so the system account may be missing afterwards
(`system_account_iff`).
-/

namespace SqlDb

open Sql (each query guarded statement Within)
open SqlDatabase (getSession isStarted wipe)

variable {L : ChainLib} {amount : Int} {options : Options} {w w' : World Exn Db} {d : Db}

/-- How many statements come before the count query of `exist`. -/
def countStatement : Nat := 7

/-- How many statements come before the `INSERT` of `add_eosio`. -/
def insertStatement : Nat := 9

/-- The system account as a row of `accounts`. -/
def systemRow (L : ChainLib) : AccountRow :=
  ⟨Name.systemAccountName.str, some (L.toJson (L.abiDefVariant L.eosioContractAbi))⟩

/-- `accounts` has a row for the system account. -/
def SystemAccount (d : Db) : Prop := ∃ r ∈ d.accounts.contents, r.name = Name.systemAccountName.str

instance (d : Db) : Decidable (SystemAccount d) := inferInstanceAs (Decidable (∃ _ ∈ _, _))

/-- The statement of `add_eosio`, without its handlers. -/
def insertEosio (L : ChainLib) : SqlM Unit :=
  statement fun d =>
    match d.accounts.insert (systemRow L) with
    | some accounts => .ok ((), { d with accounts })
    | none => .error .soci

/-- `exist` says that there is no system account, so `plugin_initialize`
takes the branch that announces the wipe if the block start is 0. -/
def Announces (amount : Int) (w : World Exn Db) : Prop :=
  ((AccountsTable.exist amount Name.systemAccountName.str).run (w.skip countStatement)).1 = .ok false

/-! ## `exist` and `wipe` -/

/-- The plugin with the options. -/
def SqlDbPluginImpl.ofOptions (options : Options) : SqlDbPluginImpl where
  contractFilterOut := (options.contractFilterOut.map splitList).getD []
  blockNumStart := options.blockStart
  queueSize := options.queueSize
  db := {
    mBlockNumStart := options.blockStart
    mActionFilterOn := (options.actionFilterOn.map splitList).getD []
    mContractFilterOut := (options.contractFilterOut.map splitList).getD [] }

open SqlDbPluginImpl (ofOptions)

theorem count_pos_iff (d : Db) :
    0 < (d.accounts.contents.filter fun r => r.name = Name.systemAccountName.str).length ↔
      SystemAccount d := by
  rw [List.length_pos_iff_exists_mem, SystemAccount]
  simp only [List.mem_filter, decide_eq_true_eq]

/-- What `exist` returns, by how its query goes. -/
theorem run_exist (amount : Int) (w : World Exn Db) (n : Nat) :
    (AccountsTable.exist amount Name.systemAccountName.str).run (w.skip n) =
      (match w.fault n with
        | none => .ok (decide (SystemAccount w.db))
        | some .soci => .ok (decide (amount > 0))
        | some .std => .ok false
        | some e => .error e, w.skip (n + 1)) := by
  rw [AccountsTable.exist, Sql.run_tryCatch, Sql.run_bind, Sql.run_query_skip]
  rcases w.fault n with _ | e
  · exact congrArg (fun b => (Except.ok b, w.skip (n + 1))) (decide_eq_decide.mpr (count_pos_iff w.db))
  · rcases e <;> rfl

/-- Whether the account exists, as `exist` says: by the count, by what was in
its local if a `soci::mysql_soci_error` left it there, or not at all. -/
theorem of_run_exist {amount : Int} {w w' : World Exn Db} {n : Nat} {started : Bool}
    (h : (AccountsTable.exist amount Name.systemAccountName.str).run (w.skip n) = (.ok started, w')) :
    w.fault n = none ∧ (started = true ↔ SystemAccount w.db) ∨
      w.fault n = some .soci ∧ (started = true ↔ 0 < amount) ∨ w.fault n = some .std ∧ started = false := by
  have hstarted := congrArg Prod.fst ((run_exist amount w n).symm.trans h)
  rcases hf : w.fault n with _ | e <;> rw [hf] at hstarted
  · cases hstarted
    exact .inl ⟨rfl, decide_eq_true_iff⟩
  · cases e with
    | soci =>
      cases hstarted
      exact .inr (.inl ⟨rfl, decide_eq_true_iff⟩)
    | std =>
      cases hstarted
      exact .inr (.inr ⟨rfl, rfl⟩)
    | fc => cases hstarted
    | other => cases hstarted

theorem insert_systemRow (L : ChainLib) (d : Db) :
    (∃ accounts, d.accounts.insert (systemRow L) = some accounts ∧ ¬ SystemAccount d ∧
      accounts.contents = d.accounts.contents ++ [systemRow L]) ∨
    d.accounts.insert (systemRow L) = none ∧ SystemAccount d := by
  rw [Table.insert]
  by_cases h : ∀ r ∈ d.accounts.rows, r.2.name ≠ (systemRow L).name
  · refine .inl ⟨_, dif_pos h, ?_, Table.contents_push _ _ h⟩
    rintro ⟨r, hr, hname⟩
    exact (Table.forall_rows_iff _ _).mp h r hr hname
  · refine .inr ⟨dif_neg h, ?_⟩
    rw [Table.forall_rows_iff] at h
    push Not at h
    exact h

/-- `wipe`, if it obtains its session: nothing is deleted, and the `INSERT` may go wrong. -/
theorem wipe_ok {n : Nat} (h : (wipe L (ofOptions options).db).run (w.skip n) = (.ok (), w')) :
    w' = ((insertEosio L).run (w.skip (n + 1))).2 := by
  rw [wipe, getSession] at h
  obtain ⟨_, w₁, hsession, hrun⟩ := Sql.of_run_bind (congrArg Prod.fst h)
  obtain ⟨-, -, rfl⟩ := Sql.run_query_skip_ok hsession
  have hadd : AccountsTable.addEosio (ofOptions options).db.systemAccount
      (L.toJson (L.abiDefVariant L.eosioContractAbi)) = guarded (insertEosio L) := rfl
  rw [hrun, hadd, Sql.run_guarded] at h
  exact (congrArg Prod.snd h).symm

/-! ## `plugin_initialize` -/

theorem openPool_ok {n : Nat} (h : (openPool n).run w = (.ok (), w')) : w' = w.skip n := by
  rw [openPool] at h
  rw [Sql.run_each_query_ok h, List.length_range]

/-- What `plugin_initialize` does behind `is_started`. -/
def bootstrap (L : ChainLib) (options : Options) (db : SqlDatabase) (started : Bool) : SqlM Unit :=
  if started = false ∧ options.blockStart = 0 then wipe L db else return ()

theorem pluginInitialize_eq {uri : String} (huri : options.uri = some uri) (hne : uri ≠ "") :
    pluginInitialize L amount options = openPool 1 >>= fun _ => openPool 5 >>= fun _ =>
      isStarted (ofOptions options).db amount >>= fun started =>
      bootstrap L options (ofOptions options).db started >>= fun _ => pure (some (ofOptions options)) := by
  simp only [pluginInitialize, huri, if_neg hne]
  refine bind_congr fun _ => bind_congr fun _ => bind_congr fun started => ?_
  rw [bootstrap]
  by_cases hs : started = false ∧ options.blockStart = 0
  · rw [if_pos hs, if_pos (by rw [hs.1]; rfl), if_pos hs.2]
    rfl
  · rw [if_neg hs]
    split
    · rename_i hf
      rw [if_neg fun hb => hs ⟨by simpa using hf, hb⟩]
      rfl
    · rfl

/-- A plugin that gets past the bootstrap branch has a uri. -/
theorem uri_of_some {my : SqlDbPluginImpl}
    (h : ((pluginInitialize L amount options).run w).1 = .ok (some my)) :
    ∃ uri, options.uri = some uri ∧ uri ≠ "" := by
  rcases huri : options.uri with _ | uri
  · simp only [pluginInitialize, huri] at h
    cases h
  · refine ⟨uri, rfl, fun hu => ?_⟩
    simp only [pluginInitialize, huri, if_pos hu] at h
    cases h

/-- A start-up that gets past the bootstrap branch: the count, and the branch. -/
theorem pluginInitialize_some {my : SqlDbPluginImpl}
    (h : ((pluginInitialize L amount options).run w).1 = .ok (some my)) :
    ∃ started, (AccountsTable.exist amount Name.systemAccountName.str).run (w.skip countStatement) =
        (.ok started, w.skip (countStatement + 1)) ∧
      (bootstrap L options (ofOptions options).db started).run (w.skip (countStatement + 1)) =
        (.ok (), ((pluginInitialize L amount options).run w).2) := by
  obtain ⟨uri, huri, hne⟩ := uri_of_some h
  rw [pluginInitialize_eq huri hne] at h ⊢
  obtain ⟨_, w₁, h₁, hrun⟩ := Sql.of_run_bind h
  rw [hrun] at h ⊢
  obtain ⟨_, w₂, h₂, hrun⟩ := Sql.of_run_bind h
  rw [hrun] at h ⊢
  obtain ⟨started, w₃, h₃, hrun⟩ := Sql.of_run_bind h
  rw [hrun] at h ⊢
  obtain ⟨_, w₄, h₄, hrun⟩ := Sql.of_run_bind h
  rw [hrun]
  have hpools : w₂ = w.skip 6 := by rw [openPool_ok h₂, openPool_ok h₁, World.skip_skip]
  rw [hpools, isStarted, getSession] at h₃
  obtain ⟨_, w₅, h₅, hexist⟩ := Sql.of_run_bind (congrArg Prod.fst h₃)
  obtain ⟨-, -, rfl⟩ := Sql.run_query_skip_ok h₅
  rw [hexist] at h₃
  have hskip : w₃ = w.skip (countStatement + 1) := by
    rw [show w.skip (6 + 1) = w.skip countStatement from rfl] at h₃
    exact (congrArg Prod.snd ((run_exist amount w countStatement).symm.trans h₃)).symm
  rw [hskip] at h₃ h₄
  exact ⟨started, h₃, h₄⟩

/-! ## The system account -/

/-- An `INSERT` that is not made to fail leaves the system account there:
it fails by itself only if the row is there already. -/
theorem system_insertEosio {n : Nat} (hn : w.fault n = none) :
    SystemAccount ((insertEosio L).run (w.skip n)).2.db := by
  rw [insertEosio, Sql.run_statement_next, World.next_skip, hn]
  obtain ⟨accounts, hinsert, -, hcontents⟩ | ⟨hinsert, hsystem⟩ := insert_systemRow L w.db
  · simp only [show (w.skip n).db = w.db from rfl, hinsert, World.after]
    refine ⟨systemRow L, ?_, rfl⟩
    rw [hcontents]
    exact List.mem_append_right _ List.mem_cons_self
  · simp only [show (w.skip n).db = w.db from rfl, hinsert, World.after]
    exact hsystem

/-- When `plugin_initialize` with block start 0 gets past the bootstrap
branch, and an `INSERT` it issues goes wrong only because the row is there,
the system account is there unless it was missing, the count query failed
with a `soci::mysql_soci_error`, and the local of `exist` held a positive
number. -/
theorem system_account_iff (hstart : options.blockStart = 0)
    (hrun : ∃ my, ((pluginInitialize L amount options).run w).1 = .ok (some my))
    (hinsert : Announces amount w → w.fault insertStatement = none) :
    SystemAccount ((pluginInitialize L amount options).run w).2.db ↔
      SystemAccount w.db ∨ w.fault countStatement ≠ some .soci ∨ amount ≤ 0 := by
  obtain ⟨my, hrun⟩ := hrun
  obtain ⟨started, hexist, hboot⟩ := pluginInitialize_some hrun
  rw [bootstrap] at hboot
  cases started with
  | false =>
    rw [if_pos ⟨rfl, hstart⟩] at hboot
    have hann : Announces amount w := congrArg Prod.fst hexist
    rw [wipe_ok hboot]
    refine iff_of_true (system_insertEosio (hinsert hann)) (.inr ?_)
    rcases of_run_exist hexist with ⟨hf, -⟩ | ⟨-, hamount⟩ | ⟨hf, -⟩
    · exact .inl (by rw [hf]; exact (Option.some_ne_none _).symm)
    · exact .inr (Int.not_lt.mp (mt hamount.mpr Bool.false_ne_true))
    · exact .inl (by rw [hf]; decide)
  | true =>
    rw [if_neg fun h => nomatch h.1] at hboot
    rw [← congrArg Prod.snd hboot]
    refine ⟨.inl, ?_⟩
    rcases of_run_exist hexist with ⟨-, hsystem⟩ | ⟨hf, hamount⟩ | ⟨-, hfalse⟩
    · exact fun _ => hsystem.mp rfl
    · rintro (hsystem | hne | hle)
      · exact hsystem
      · exact absurd hf hne
      · exact absurd (hamount.mp rfl) (Int.not_lt.mpr hle)
    · cases hfalse

/-- A start-up on an empty database whose count query fails. -/
def badCount : World Exn Db := ⟨{}, List.replicate countStatement none ++ [some .soci]⟩

def syncOptions : Options := { uri := some "mysql://db=eos user=root host=127.0.0.1" }

/-- With 1 in the local of `exist`, the start-up takes the database for
synced: the system account is not there when the signal is connected. -/
theorem system_account_missing :
    (∃ my, ((pluginInitialize .sample 1 syncOptions).run badCount).1 = .ok (some my)) ∧
    ¬ Announces 1 badCount ∧
    ¬ SystemAccount ((pluginInitialize .sample 1 syncOptions).run badCount).2.db :=
  ⟨⟨_, rfl⟩, by rw [Announces, run_exist]; exact nofun, by decide +kernel⟩

/-- With 0 in it, the `INSERT` is issued and the account is there. -/
theorem system_account_iff_zero :
    SystemAccount ((pluginInitialize .sample 0 syncOptions).run badCount).2.db :=
  (system_account_iff rfl ⟨_, rfl⟩ fun _ => rfl).mpr (.inr (.inr (Int.le_refl 0)))

end SqlDb
