import TraitFactory.Declaring
import TraitFactory.Main
import TraitFactory.Proofs.Anonymous
import TraitFactory.Proofs.Counting
import TraitFactory.Proofs.Discipline
import TraitFactory.Proofs.Elsewhere
import TraitFactory.Proofs.Generations
import TraitFactory.Proofs.Grounding
import TraitFactory.Proofs.Indifferent
import TraitFactory.Proofs.Parents
import TraitFactory.Proofs.Precedence
import TraitFactory.Proofs.Presenting
import TraitFactory.Proofs.Solutions
import TraitFactory.Proofs.Uniform
import TraitFactory.Proofs.UniformCopies
import TraitFactory.Proofs.UniformReads
import TraitFactory.Proofs.Wording
import TraitFactory.Proofs.Renewal
import TraitFactory.Proofs.Recompiling
import TraitFactory.Proofs.Constructing
import TraitFactory.Proofs.Repeating
import TraitFactory.Proofs.Successive
import TraitFactory.Proofs.Configuring
import TraitFactory.Proofs.Consulting
import TraitFactory.Proofs.Trailing
import TraitFactory.Proofs.Fitting
import TraitFactory.Proofs.Scopes
import TraitFactory.Proofs.Sharing
import TraitFactory.Proofs.Printing
import TraitFactory.Proofs.Listing
