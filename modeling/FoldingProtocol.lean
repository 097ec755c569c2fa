import FoldingProtocol.Main
import FoldingProtocol.Proofs.AdvertisedCapabilities
import FoldingProtocol.Proofs.CommandOrder
import FoldingProtocol.Proofs.DecodedRanges
import FoldingProtocol.Proofs.DirectoryPatterns
import FoldingProtocol.Proofs.FittingWarnings
import FoldingProtocol.Proofs.ForeignMembers
import FoldingProtocol.Proofs.FoundRegistration
import FoldingProtocol.Proofs.KeptConfig
import FoldingProtocol.Proofs.MergedKeys
import FoldingProtocol.Proofs.NotificationRuns
import FoldingProtocol.Proofs.OfferDecision
import FoldingProtocol.Proofs.RangesEndings
import FoldingProtocol.Proofs.RangesFixpoint
import FoldingProtocol.Proofs.RelayedErrors
import FoldingProtocol.Proofs.RenderedRanges
import FoldingProtocol.Proofs.SavedConfig
import FoldingProtocol.Proofs.SelectorVerdicts
import FoldingProtocol.Proofs.ShownResults
import FoldingProtocol.Proofs.SuccessiveFits
