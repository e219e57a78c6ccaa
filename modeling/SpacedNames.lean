import SpacedNames.Proofs.Recognition.Decisions
import SpacedNames.Proofs.Recognition.Refusals
import SpacedNames.Proofs.Resolver.Declarations
import SpacedNames.Proofs.Resolver.Language
import SpacedNames.Proofs.Scoping.Backtracking
import SpacedNames.Proofs.Scoping.Dump
import SpacedNames.Proofs.Scoping.Likeness
import SpacedNames.Proofs.Scoping.Restart
import SpacedNames.Proofs.Settings.Contents
import SpacedNames.Proofs.Source.Outline
