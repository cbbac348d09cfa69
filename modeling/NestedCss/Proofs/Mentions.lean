import Mathlib.Data.List.Nodup
import NestedCss.Proofs.Registrations
import NestedCss.Proofs.Steps

set_option autoImplicit false

/-! What texts draw from a registry. Names are looked for anywhere in a text, so a name
could be part of another one; but the names that operations lead to are distinct and of
the same length. Then exactly the animations that are mentioned are drawn, each once and in
the order of their registration. -/

namespace NestedCss

theorem Text.occursIn_iff (needle text : Text) :
    Text.occursIn needle text = true ↔ needle <:+: text := by
  induction text with
  | nil => rw [occursIn, List.isEmpty_iff, List.infix_nil]
  | cons member rest ih =>
      rw [occursIn, Bool.or_eq_true, List.isPrefixOf_iff_prefix, ih, List.infix_cons_iff]

private theorem Template.texts_of_interpolate {template : Template} {joined : Interpolated}
    (interpolated : template.interpolate = .ok joined) :
    joined.texts = template.values.map Value.contribution := by
  unfold interpolate at interpolated
  split at interpolated
  · injection interpolated with same
    rw [← same]
    rfl
  · cases interpolated

namespace Keyframes

/-- The entries whose names stand in one of the texts, in the order of their registration. -/
structure Registry.Mentions (registry : Registry) (texts : List Text) (mentioned : List Entry) :
    Prop where
  ordered : mentioned.Sublist registry.entries
  distinct : (mentioned.map Entry.name).Nodup
  complete : ∀ entry, entry ∈ mentioned ↔
    entry ∈ registry.entries ∧ ∃ text ∈ texts, entry.name <:+: text

namespace Registry

private theorem any_occursIn_iff (entry : Entry) (texts : List Text) :
    texts.any (Text.occursIn entry.name) = true ↔ ∃ text ∈ texts, entry.name <:+: text := by
  rw [List.any_eq_true]
  refine exists_congr fun text => and_congr_right fun _ => ?_
  exact Text.occursIn_iff entry.name text

private theorem exists_mentions {registry : Registry} (distinct : registry.names.Nodup)
    (texts : List Text) : ∃ mentioned, registry.Mentions texts mentioned ∧
      registry.referenced texts = mentioned.flatMap Entry.css := by
  refine ⟨_, ⟨List.filter_sublist, ?_, fun entry => ?_⟩, rfl⟩
  · exact distinct.sublist (List.filter_sublist.map Entry.name)
  · rw [List.mem_filter, any_occursIn_iff]

private theorem referenced_congr (registry : Registry) {texts others : List Text}
    (same : ∀ text, text ∈ texts ↔ text ∈ others) :
    registry.referenced texts = registry.referenced others := by
  have alike : ∀ entry : Entry,
      texts.any (Text.occursIn entry.name) = others.any (Text.occursIn entry.name) := by
    intro entry
    rw [Bool.eq_iff_iff, any_occursIn_iff, any_occursIn_iff]
    exact exists_congr fun text => and_congr_left fun _ => same text
  rw [referenced, referenced]
  simp only [alike]

private theorem referenced_prefix {before after : Registry}
    (grown : before.entries <+: after.entries)
    (texts : List Text) : before.referenced texts <+: after.referenced texts := by
  obtain ⟨more, grown⟩ := grown
  rw [referenced, referenced, ← grown, List.filter_append, List.flatMap_append]
  exact List.prefix_append _ _

private theorem referenced_name {registry : Registry} (orderly : registry.Orderly) {entry : Entry}
    (present : entry ∈ registry.entries) : registry.referenced [entry.name] = entry.css := by
  obtain ⟨mentioned, mentions, drawn⟩ := exists_mentions orderly.distinct [entry.name]
  have own : ∀ other ∈ mentioned, other = entry := by
    intro other found
    obtain ⟨stored, text, alone, inside⟩ := (mentions.complete other).mp found
    rw [List.mem_singleton.mp alone] at inside
    refine List.inj_on_of_nodup_map orderly.distinct stored present (inside.eq_of_length ?_)
    rw [orderly.length_eq _ (List.mem_map_of_mem stored),
      orderly.length_eq _ (List.mem_map_of_mem present)]
  have found : entry ∈ mentioned :=
    (mentions.complete entry).mpr ⟨present, entry.name, List.mem_singleton_self _, List.infix_rfl⟩
  cases mentioned with
  | nil => cases found
  | cons first rest =>
      have alone : rest = [] := by
        refine List.eq_nil_iff_forall_not_mem.mpr fun second later => ?_
        refine (List.nodup_cons.mp mentions.distinct).1 ?_
        rw [own first (List.mem_cons_self ..), ← own second (List.mem_cons_of_mem _ later)]
        exact List.mem_map_of_mem later
      rw [drawn, alone, own first (List.mem_cons_self ..), List.flatMap_singleton]

end Registry

/-- What texts draw from a registry that operations have led to: the stored texts of the
entries that they mention and nothing else, however often and in which order they mention
them. Later registrations only add to it, and a template's values draw it behind the rules. -/
theorem referenced_exact {digest : Digest}
    (digits : ∀ message, nameDigits ≤ (digest message).length) {registry : Registry}
    (reachable : registry.Reachable digest) :
    (∀ texts, ∃ mentioned, registry.Mentions texts mentioned ∧
      registry.referenced texts = mentioned.flatMap Entry.css) ∧
    (∀ texts others, (∀ text, text ∈ texts ↔ text ∈ others) →
      registry.referenced texts = registry.referenced others) ∧
    (∀ texts operations answers later, run? digest operations registry = some (answers, later) →
      registry.referenced texts <+: later.referenced texts) ∧
    (∀ entry ∈ registry.entries, registry.referenced [entry.name] = entry.css) ∧
    ∀ options (template : Template) css, (template.compile options registry).outcome = .ok css →
      ∃ joined rules mentioned, template.interpolate = .ok joined ∧
        (compileSource options joined.source).outcome = .ok rules ∧
        registry.Mentions (template.values.map Value.contribution) mentioned ∧
        css = rules ++ mentioned.flatMap Entry.css := by
  have orderly := reachable.orderly digits
  refine ⟨Registry.exists_mentions orderly.distinct, fun _ _ => registry.referenced_congr, ?_,
    fun _ => Registry.referenced_name orderly, ?_⟩
  · intro texts operations answers later run
    obtain ⟨tried, history⟩ := history_of_run? run
    exact Registry.referenced_prefix history.entries_prefix texts
  · intro options template css compiled
    obtain ⟨joined, interpolated, written⟩ := Traced.outcome_andThen_eq_ok.mp compiled
    obtain ⟨rules, ended, same⟩ := Traced.outcome_map_eq_ok.mp written
    obtain ⟨mentioned, mentions, drawn⟩ :=
      Registry.exists_mentions orderly.distinct (template.values.map Value.contribution)
    refine ⟨joined, rules, mentioned, interpolated, ended, mentions, ?_⟩
    rw [← same, ← drawn, ← Template.texts_of_interpolate interpolated]

theorem referenced_exact_with_sha256 :
    let operations : List Operation := [.register [[]] "to\x7b a:b \x7d".toList,
      .register ["-o-".toList] "to\x7b c : d\x7d".toList]
    let registry : Registry := ⟨2,
      [⟨"_23f0ae58188febc3".toList, "@keyframes _23f0ae58188febc3\x7bto\x7ba:b\x7d\x7d".toList⟩,
        ⟨"_37232dc5e4bbeadf".toList, "@-o-keyframes _37232dc5e4bbeadf\x7bto\x7bc:d\x7d\x7d".toList⟩]⟩
    let values : List Value := [.text "_37232dc5e4bbeadf 1s".toList, .text "_23f0ae".toList]
    let animated : Template :=
      ⟨["a\x7banimation:".toList, ";b:".toList, "\x7d".toList], values⟩
    (∀ message, nameDigits ≤ (Sha256.digest message).length) ∧
      (run? Sha256.digest operations ⟨0, []⟩).map Prod.snd = some registry ∧
      (∀ entry ∈ registry.entries, registry.referenced [entry.name] = entry.css) ∧
      (animated.compile ⟨false⟩ registry).outcome = .ok (("a\x7banimation:_37232dc5e4bbeadf 1s;" ++
        "b:_23f0ae;\x7d@-o-keyframes _37232dc5e4bbeadf\x7bto\x7bc:d\x7d\x7d").toList) ∧
      ∃ mentioned, registry.Mentions (values.map Value.contribution) mentioned := by
  intro operations registry values animated
  have digits : ∀ message, nameDigits ≤ (Sha256.digest message).length := by
    intro message
    rw [Sha256.length_digest]
    decide
  have run : (run? Sha256.digest operations ⟨0, []⟩).map Prod.snd = some registry := by
    decide +kernel
  have reachable : registry.Reachable Sha256.digest := by
    obtain ⟨⟨answers, last⟩, whole, same⟩ := Option.map_eq_some_iff.mp run
    exact ⟨0, operations, answers, same ▸ whole⟩
  have compiled : (animated.compile ⟨false⟩ registry).outcome = .ok (("a\x7banimation:" ++
      "_37232dc5e4bbeadf 1s;b:_23f0ae;\x7d@-o-keyframes " ++
      "_37232dc5e4bbeadf\x7bto\x7bc:d\x7d\x7d").toList) := by
    decide +kernel
  obtain ⟨_, _, _, named, drawn⟩ := referenced_exact digits reachable
  obtain ⟨_, _, mentioned, _, _, mentions, _⟩ := drawn _ animated _ compiled
  exact ⟨digits, run, named, compiled, mentioned, mentions⟩

end Keyframes
end NestedCss
