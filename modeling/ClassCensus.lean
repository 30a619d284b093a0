import ClassCensus.Main
import ClassCensus.Proofs.Analysis.Runs
import ClassCensus.Proofs.ClassFile.Assembly
import ClassCensus.Proofs.ClassFile.Isolation
import ClassCensus.Proofs.ClassFile.References
import ClassCensus.Proofs.ClassFile.Sizes
import ClassCensus.Proofs.ClassFile.StackMaps
import ClassCensus.Proofs.Collection.Agreement
import ClassCensus.Proofs.CommandLine.Runs
import ClassCensus.Proofs.Constant.Texts
import ClassCensus.Proofs.Report
import ClassCensus.Proofs.Signature.CleanNames
import ClassCensus.Proofs.Specification.Documents
import ClassCensus.Proofs.Specification.Generations
import ClassCensus.Proofs.Specification.Versions
