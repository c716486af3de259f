import SqlDbPlugin.Database.ActionsTable

/-!
# What `add` can write, however its statements go

A call of `add` that is cut short by failing statements has done some of its
writes. Whichever they are, it stays within a relation `R` on databases that
each single write stays within: `addData_within` for the upsert of the abi,
`parseActions_within` for the writes of `parse_actions` (`ParseWrites`), and
`add_within` for both and the `INSERT` of the row. `add_appends` is what
becomes of `actions`.
-/

namespace SqlDb.ActionsTable

open Sql (Within guarded update)

variable (L : ChainLib) {R : Db → Db → Prop} [Std.Refl R] [IsTrans Db R]

theorem addData_within (action : Action) (h : ∀ name abi d, R d (d.upsertAbi name abi)) :
    Within R (addData L action) := by
  have hstored : Within R (storedData L action) := by
    refine (Within.query _).bind fun text => ?_
    split
    · exact (((Within.lift _).bind fun _ => (Within.lift _).bind fun _ => .pure _)).tryCatch
        fun _ => .pure _
    · exact .pure _
  have hstore : Within R (storeAbi L action) := by
    refine (Within.lift _).bind fun setabi => Within.tryCatch ?_ fun e => ?_
    · refine (Within.lift _).bind fun abiDef => Within.bind ?_ fun _ => .pure _
      exact .guarded (.update (h _ _))
    · split
      · exact .pure _
      · exact .throw _
  rw [addData]
  split
  · exact .pure _
  · refine Within.tryCatch ?_ fun _ => .pure _
    split
    · refine hstore.bind fun json => ?_
      split
      · exact .pure _
      · exact hstored
    · exact hstored

/-- `R` allows each write of `parse_actions`. -/
structure ParseWrites (R : Db → Db → Prop) : Prop where
  account : ∀ name d, R d (d.upsertAccount name)
  key : ∀ row d, R d (d.insertKey row)
  vote : ∀ row d, R d (d.upsertVote row)
  propose : ∀ row d, R d (d.upsertProposal row)
  unpropose : ∀ proposer proposalName d, R d (d.deleteProposal proposer proposalName)
  asset : ∀ row d, R d (d.replaceAsset row)

variable {L} in
theorem parseData_within (action : Action) (v : Variant) (h : ParseWrites R) :
    Within R (parseData L action v) := by
  have hguarded {f : Db → Db} (hf : ∀ d, R d (f d)) : Within R (guarded (update f : SqlM Unit)) :=
    .guarded (.update hf)
  have hkeys (account : Name) (permission : String) (keys : List String) :
      Within R (insertKeys account permission keys) :=
    .each fun _ _ => .update (h.key _)
  unfold parseData
  split
  · split
    · refine (Within.lift _).bind fun a => Within.bind (.update (h.account _)) fun _ => ?_
      exact (hkeys _ _ _).bind fun _ => hkeys _ _ _
    · split
      · exact (Within.lift _).bind fun _ => (Within.lift _).bind fun _ => (Within.lift _).bind fun _ =>
          hguarded (h.vote _)
      · exact .pure _
  · split
    · split
      · exact (Within.lift _).bind fun _ => (Within.lift _).bind fun _ => (Within.lift _).bind fun _ =>
          hguarded (h.propose _)
      · split
        · exact (Within.lift _).bind fun _ => (Within.lift _).bind fun _ => hguarded (h.unpropose _ _)
        · exact .pure _
    · split
      · refine (Within.lift _).bind fun _ => (Within.lift _).bind fun _ => ?_
        split
        · exact .pure _
        · exact hguarded (h.asset _)
      · exact .pure _

theorem parseActions_within (action : Action) (h : ParseWrites R) :
    Within R (parseActions L action) := by
  refine (Within.query _).bind fun text => ?_
  split
  · exact (Within.lift _).bind fun _ => (Within.lift _).bind fun _ => parseData_within action _ h
  · split
    · exact (Within.lift _).bind fun _ => parseData_within action _ h
    · exact .pure _

theorem add_within (filterOut : List String) (a : AddArgs)
    (habi : ∀ name abi d, R d (d.upsertAbi name abi)) (hparse : ParseWrites R)
    (hrow : ∀ json dataJson d, R d (d.insertAction
      (actionRow L a.action a.transactionId a.blockTime json dataJson))) :
    Within R (add L filterOut a) := by
  rw [add]
  split
  · refine (addData_within L a.action habi).bind fun json => (Within.lift _).bind fun dataJson => ?_
    refine Within.bind (.guarded (.update (hrow json dataJson))) fun _ => ?_
    exact (Within.guarded (parseActions_within L a.action hparse)).bind fun _ => .pure _
  · exact .pure _

/-! ## The rows of `actions` -/

/-- `actions` only has rows for which `P` holds appended. -/
def Appends (P : ActionRow → Prop) (d d' : Db) : Prop :=
  ∃ rows, d'.actions = d.actions ++ rows ∧ ∀ r ∈ rows, P r

instance (P : ActionRow → Prop) : Std.Refl (Appends P) :=
  ⟨fun _ => ⟨[], (List.append_nil _).symm, nofun⟩⟩

instance (P : ActionRow → Prop) : IsTrans Db (Appends P) where
  trans := by
    rintro d₁ d₂ d₃ ⟨rows, h, hP⟩ ⟨rows', h', hP'⟩
    refine ⟨rows ++ rows', by rw [h', h, List.append_assoc], fun r hr => ?_⟩
    obtain hr | hr := List.mem_append.mp hr
    · exact hP r hr
    · exact hP' r hr

variable {P : ActionRow → Prop}

theorem appends_of_eq {d d' : Db} (h : d'.actions = d.actions) : Appends P d d' :=
  ⟨[], by rw [h, List.append_nil], nofun⟩

theorem add_appends (L : ChainLib) (filterOut : List String) (a : AddArgs) :
    Within (Appends (·.account = a.action.account.str)) (add L filterOut a) :=
  add_within L filterOut a (fun _ _ _ => appends_of_eq rfl)
    ⟨fun _ _ => appends_of_eq rfl, fun _ _ => appends_of_eq rfl, fun _ _ => appends_of_eq rfl,
      fun _ _ => appends_of_eq rfl, fun _ _ _ => appends_of_eq rfl, fun _ _ => appends_of_eq rfl⟩
    fun _ _ _ => ⟨[_], rfl, fun _ hr => by rw [List.mem_singleton.mp hr]; rfl⟩

end SqlDb.ActionsTable
